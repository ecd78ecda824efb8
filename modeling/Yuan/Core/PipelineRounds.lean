import Yuan.Core.PipelineStages
import Yuan.Core.QueuePartition

/-!
# Rounds of the pipeline

As many steps as the pipeline has stages, one after the other without any output: a decode request that is
scheduled asks for nothing until its output is there, so every step takes the next share of the requests.
-/

namespace Yuan.Core

variable {t : EncoderPlan} {fuel : Nat}

namespace Scheduler

variable {β : Type} {cfg : SchedulerConfig β} {env : ScheduleEnv} {s s' s'' : Scheduler β}
variable {p p' : Plan} {id : Nat} {r : Request (List β)}

/-! ## Requests that nothing changes -/

/-- A running request that has computed something, without drafts and placeholders. -/
structure Settled (r : Request (List β)) : Prop where
  status : r.status = .running
  started : 0 < r.numComputedTokens
  specTokenIds : r.specTokenIds = []
  numOutputPlaceholders : r.numOutputPlaceholders = 0

/-- The running list and all settled requests are as before. -/
structure Quiet (s s' : Scheduler β) : Prop where
  running : s'.running = s.running
  pauseState : s'.pauseState = s.pauseState
  request : ∀ x, Settled (s.request x) → s'.request x = s.request x

theorem Quiet.refl (s : Scheduler β) : Quiet s s := ⟨rfl, rfl, fun _ _ => rfl⟩

theorem Quiet.trans (h : Quiet s s') (h' : Quiet s' s'') : Quiet s s'' where
  running := h'.running.trans h.running
  pauseState := h'.pauseState.trans h.pauseState
  request x hx := by
    have hsame := h.request x hx
    rw [h'.request x (by rw [hsame]; exact hx), hsame]

theorem quiet_of_request (hrunning : s'.running = s.running) (hpause : s'.pauseState = s.pauseState)
    (hrequest : s'.request = s.request) : Quiet s s' :=
  ⟨hrunning, hpause, fun x _ => by rw [hrequest]⟩

/-- Changing a request that is not settled is quiet. -/
theorem Quiet.modify (h : Quiet s s') (hnot : ¬ Settled (s.request id))
    (f : Request (List β) → Request (List β)) : Quiet s (s'.modify id f) where
  running := h.running
  pauseState := h.pauseState
  request x hx := by
    have hne : x ≠ id := by
      rintro rfl
      exact hnot hx
    rw [modify_request_of_ne _ hne]
    exact h.request x hx

/-- Dropping the drafts is quiet: settled requests have none. -/
theorem quiet_dropSpec (s : Scheduler β) (id : Nat) :
    Quiet s (s.modify id fun r => { r with specTokenIds := [] }) where
  running := rfl
  pauseState := rfl
  request x hx := by
    by_cases hne : x = id
    · subst hne
      rw [modify_request_self, ← hx.specTokenIds]
    · exact modify_request_of_ne _ hne _

theorem Untouched.quiet (h : Untouched s s') : Quiet s s' := quiet_of_request h.running h.pauseState h.request

theorem not_settled_of_new (hzero : (s.request id).numComputedTokens = 0) : ¬ Settled (s.request id) :=
  fun h => absurd h.started (by rw [hzero]; exact lt_irrefl 0)

theorem VisitStep.quiet (hstep : VisitStep id s s') : Quiet s s' := by
  cases hstep with
  | untouched h => exact h.quiet
  | loaded n hstatus =>
    apply (Quiet.refl s).modify
    intro h
    rw [h.status] at hstatus
    cases hstatus
  | unblocked status hstatus =>
    apply (Quiet.refl s).modify
    intro h
    rw [h.status] at hstatus
    rcases hstatus with hstatus | hstatus <;> cases hstatus
  | matched ext hzero => exact (Quiet.refl s).modify (not_settled_of_new hzero) _

/-! ## Waiting requests -/

/-- The running list grows by requests that were not settled; settled ones get no tokens. -/
structure Grows (s s' : Scheduler β) (p p' : Plan) : Prop where
  running : ∃ admitted, s'.running = s.running ++ admitted ∧ ∀ y ∈ admitted, ¬ Settled (s.request y)
  pauseState : s'.pauseState = s.pauseState
  request : ∀ x, Settled (s.request x) → s'.request x = s.request x
  tokens : ∀ x, Settled (s.request x) → p'.numScheduledTokens.get? x = p.numScheduledTokens.get? x
  preemptedReqs : p'.preemptedReqs = p.preemptedReqs

theorem Quiet.grows (h : Quiet s s') (p : Plan) : Grows s s' p p where
  running := ⟨[], by rw [h.running, List.append_nil], fun y hy => by cases hy⟩
  pauseState := h.pauseState
  request := h.request
  tokens _ _ := rfl
  preemptedReqs := rfl

theorem Grows.trans {p'' : Plan} (h : Grows s s' p p') (h' : Grows s' s'' p' p'') : Grows s s'' p p'' where
  running := by
    obtain ⟨l, hl, hnot⟩ := h.running
    obtain ⟨l', hl', hnot'⟩ := h'.running
    refine ⟨l ++ l', by rw [hl', hl, List.append_assoc], fun y hy hsettled => ?_⟩
    rcases List.mem_append.mp hy with hy | hy
    · exact hnot y hy hsettled
    · exact hnot' y hy (by rw [h.request y hsettled]; exact hsettled)
  pauseState := h'.pauseState.trans h.pauseState
  request x hx := by
    have hsame := h.request x hx
    rw [h'.request x (by rw [hsame]; exact hx), hsame]
  tokens x hx := by
    have hsame := h.request x hx
    rw [h'.tokens x (by rw [hsame]; exact hx), h.tokens x hx]
  preemptedReqs := h'.preemptedReqs.trans h.preemptedReqs

theorem popWaiting_quiet (hrun : s.popWaiting cfg = .ok (id, s')) : Quiet s s' := by
  obtain ⟨⟨id', waiting⟩, -, hrun⟩ := bind_eq_ok.mp hrun
  cases hrun
  exact quiet_of_request rfl rfl rfl

theorem skipWaiting_quiet {skipped skipped' : List Nat}
    (hrun : s.skipWaiting cfg skipped = .ok (s', skipped')) : Quiet s s' := by
  obtain ⟨⟨id, s₁⟩, hpop, hrun⟩ := bind_eq_ok.mp hrun
  cases hrun
  exact popWaiting_quiet hpop

/-- A settled request is not scheduled from the waiting queue: it runs already. -/
theorem scheduleWaiting_grows {c : ComputedTokens} (hrun : s.scheduleWaiting cfg p id c t = .ok (s', p')) :
    Grows s s' p p' := by
  obtain ⟨p₁, newBlocks, -, htokens, hpreempted, hsame⟩ := scheduleWaiting_plan hrun
  obtain ⟨p₂, hadd, hrun⟩ := bind_eq_ok.mp hrun
  obtain ⟨s₁, hencoder, hrun⟩ := bind_eq_ok.mp hrun
  obtain ⟨rfl, -⟩ := ok_pair hrun
  have hnot : ¬ Settled (s.request id) := by
    intro h
    unfold addScheduled at hadd
    dsimp only at hadd
    rw [h.status] at hadd
    cases hadd
  have hrunning : Quiet { s with running := s.running ++ [id] } s₁ := by
    refine Quiet.trans ?_ (allocateEncoder_untouched hencoder).quiet
    exact (Quiet.refl { s with running := s.running ++ [id] }).modify hnot _
  refine ⟨⟨[id], hrunning.running, fun y hy => ?_⟩, hrunning.pauseState, hrunning.request, fun x hx => ?_, ?_⟩
  · rw [List.mem_singleton] at hy
    rw [hy]
    exact hnot
  · have hne : x ≠ id := by
      rintro rfl
      exact hnot hx
    rw [hsame.numScheduledTokens]
    unfold Plan.assign
    rw [Dict.get?_set_of_ne _ _ hne, htokens]
  · rw [hsame.preemptedReqs]
    exact hpreempted

theorem WaitStep.grows [DecidableEq β] {x y : Scheduler β × Plan × List Nat} (hstep : WaitStep cfg x y) :
    Grows x.1 y.1 x.2.1 y.2.1 := by
  cases hstep with
  | visit hvisit => exact hvisit.quiet.grows _
  | skip hskip => exact (skipWaiting_quiet hskip).grows _
  | load _ _ hzero hskip =>
    exact ((skipWaiting_quiet hskip).modify (not_settled_of_new hzero)
      fun r => { r with status := .waitingForRemoteKvs }).grows _
  | accept _ hpop hschedule => exact ((popWaiting_quiet hpop).grows _).trans (scheduleWaiting_grows hschedule)

theorem scheduleWaitingReqs_grows [DecidableEq β] (hrun : s.scheduleWaitingReqs cfg env p = .ok (s', p')) :
    Grows s s' p p' := by
  obtain ⟨s₁, skipped, hsteps, rfl, -⟩ := scheduleWaitingReqs_steps hrun
  have hgrows := holds_of_steps (R := fun x y => Grows x.1 y.1 x.2.1 y.2.1) (fun _ => (Quiet.refl _).grows _) .trans
    WaitStep.grows hsteps
  have hback : Quiet s₁ { s₁ with waiting :=
      RequestQueue.prependRequests cfg.policy s₁.requestLt s₁.waiting skipped } := quiet_of_request rfl rfl rfl
  exact hgrows.trans (hback.grows p')

/-! ## Running requests -/

section Running

variable [DecidableEq β] {reqIndex : Nat}

omit [DecidableEq β] in
theorem withdraw_preemptedReqs (hrun : p.withdraw id = .ok p') : p'.preemptedReqs = p.preemptedReqs := by
  unfold Plan.withdraw at hrun
  split at hrun
  · cases hrun
    rfl
  · cases hrun

theorem AllocateStep.preemptedReqs {x y : Scheduler β × Plan} (hstep : AllocateStep cfg x y) :
    x.2.preemptedReqs <+: y.2.preemptedReqs := by
  cases hstep with
  | slots => exact List.prefix_refl _
  | preempt hpop =>
    rcases popPreempted_cases hpop with ⟨-, -, -, rfl | ⟨-, hwithdraw⟩⟩ | ⟨-, -, -, rfl⟩
    · exact List.prefix_append _ _
    · rw [← withdraw_preemptedReqs hwithdraw]
      exact List.prefix_append _ _
    · exact List.prefix_append _ _

theorem allocateRunning_preemptedReqs {numNewTokens : Int} {reqIndex' : Nat} {newBlocks : Option (List (List Nat))}
    (hrun : allocateRunning cfg id numNewTokens fuel reqIndex s p = .ok (newBlocks, reqIndex', s', p')) :
    p.preemptedReqs <+: p'.preemptedReqs :=
  holds_of_steps (R := fun x y => x.2.preemptedReqs <+: y.2.preemptedReqs) (fun _ => List.prefix_refl _)
    .trans AllocateStep.preemptedReqs (allocateRunning_steps hrun)

/-- Where nothing is preempted, the first attempt to allocate slots succeeds. -/
theorem allocateRunning_quiet {numNewTokens : Int} {reqIndex' : Nat} {newBlocks : Option (List (List Nat))}
    (hrun : allocateRunning cfg id numNewTokens (fuel + 1) reqIndex s p = .ok (newBlocks, reqIndex', s', p'))
    (hnone : p'.preemptedReqs = []) : newBlocks.isSome ∧ reqIndex' = reqIndex ∧ p' = p ∧ Quiet s s' := by
  obtain ⟨⟨blocks, s₁⟩, halloc, hrun⟩ := bind_eq_ok.mp hrun
  have hquiet := (allocateSlots_untouched halloc).quiet
  dsimp only at hrun
  split at hrun
  · simp only [Except.ok.injEq, Prod.mk.injEq, pure, Except.pure] at hrun
    obtain ⟨rfl, rfl, rfl, rfl⟩ := hrun
    exact ⟨rfl, rfl, rfl, hquiet⟩
  · exfalso
    obtain ⟨⟨preempted, reqIndex₁, s₂, p₁⟩, -, hrun⟩ := bind_eq_ok.mp hrun
    obtain ⟨s₃, -, hrun⟩ := bind_eq_ok.mp hrun
    dsimp only at hrun
    split at hrun
    · simp only [Except.ok.injEq, Prod.mk.injEq, pure, Except.pure] at hrun
      obtain ⟨-, -, -, rfl⟩ := hrun
      exact List.append_ne_nil_of_right_ne_nil _ (List.cons_ne_nil _ _) hnone
    · have hprefix := allocateRunning_preemptedReqs hrun
      rw [hnone, List.prefix_nil] at hprefix
      exact List.append_ne_nil_of_right_ne_nil _ (List.cons_ne_nil _ _) hprefix

omit [DecidableEq β] in
theorem scheduleRunning_quiet {newBlocks : List (List Nat)} (hrun : s.scheduleRunning p id newBlocks t = .ok (s', p')) :
    Quiet s s' := by
  obtain ⟨s₁, hencoder, hrun⟩ := bind_eq_ok.mp hrun
  cases hrun
  exact (quiet_dropSpec s id).trans (allocateEncoder_untouched hencoder).quiet

theorem RunStep.preemptedReqs {x y : Scheduler β × Plan} (hstep : RunStep cfg env x y) :
    x.2.preemptedReqs <+: y.2.preemptedReqs := by
  cases hstep with
  | encode => exact List.prefix_refl _
  | allocate hstep => exact hstep.preemptedReqs
  | schedule hschedule =>
    rw [(scheduleRunning_plan hschedule).preemptedReqs]
    exact List.prefix_refl _

/-- The plan of the running loop only adds to the preempted requests. -/
theorem runningLoop_preemptedReqs (hrun : runningLoop cfg env fuel reqIndex s p = .ok (s', p')) :
    p.preemptedReqs <+: p'.preemptedReqs :=
  holds_of_steps (R := fun x y => x.2.preemptedReqs <+: y.2.preemptedReqs) (fun _ => List.prefix_refl _)
    .trans RunStep.preemptedReqs (runningLoop_steps hrun)

/-- What a turn of the running loop does, where nothing is preempted. -/
inductive Turn (cfg : SchedulerConfig β) (env : ScheduleEnv) (id : Nat) (s s' : Scheduler β) (p p' : Plan)
    (reqIndex fuel : Nat) : Prop where
  | stop (hstop : p.tokenBudget ≤ 0 ∨ s.stageIsFull cfg p.scheduledRunningReqs.length = true)
      (hs : s' = s) (hp : p' = p)
  | skip (hskip : reachesMaxTokens (s.request id) = true ∨ ∃ t s₁,
        s.planEncoder cfg env id (s.request id).numComputedTokens
          (numNewTokensOf cfg (s.request id) p.tokenBudget) p.encoderComputeBudget = .ok (t, s₁) ∧
        t.numNewTokens = 0)
      (s₁ : Scheduler β) (hquiet : Quiet s s₁)
      (hrun : runningLoop cfg env fuel (reqIndex + 1) s₁ p = .ok (s', p'))
  | schedule (t : EncoderPlan) (s₁ : Scheduler β)
      (hplan : s.planEncoder cfg env id (s.request id).numComputedTokens
        (numNewTokensOf cfg (s.request id) p.tokenBudget) p.encoderComputeBudget = .ok (t, s₁))
      (hsome : t.numNewTokens ≠ 0)
      (hroom : s.stageIsFull cfg p.scheduledRunningReqs.length = false) (newBlocks : List (List Nat))
      (s₂ : Scheduler β) (p₁ : Plan) (hquiet : Quiet s s₂)
      (hsame : SameScheduled ({ p with scheduledRunningReqs := p.scheduledRunningReqs ++ [id] }.assign id
        newBlocks t.numNewTokens) p₁)
      (hrun : runningLoop cfg env fuel (reqIndex + 1) s₂ p₁ = .ok (s', p'))

theorem runningLoop_turn (hid : s.running[reqIndex]? = some id)
    (hrun : runningLoop cfg env (fuel + 1) reqIndex s p = .ok (s', p')) (hnone : p'.preemptedReqs = []) :
    Turn cfg env id s s' p p' reqIndex fuel := by
  rw [runningLoop, hid] at hrun
  dsimp only at hrun
  split at hrun
  · next hbudget =>
    cases hrun
    exact .stop (.inl hbudget) rfl rfl
  · split at hrun
    · next hfull =>
      cases hrun
      exact .stop (.inr hfull) rfl rfl
    · next hroom =>
      split at hrun
      · next hreaches => exact .skip (.inl hreaches) s (.refl s) hrun
      · obtain ⟨⟨t, s₁⟩, hplan, hrun⟩ := bind_eq_ok.mp hrun
        have hquiet := (planEncoder_untouched hplan).quiet
        dsimp only at hrun
        split at hrun
        · next hzero => exact .skip (.inr ⟨t, s₁, hplan, hzero⟩) s₁ hquiet hrun
        · next hsome =>
          obtain ⟨⟨newBlocks, reqIndex₁, s₂, p₁⟩, halloc, hrest⟩ := bind_eq_ok.mp hrun
          have hlength : ∃ n, s₁.running.length = n + 1 := by
            rw [hquiet.running]
            exact ⟨s.running.length - 1, by have := (List.getElem?_eq_some_iff.mp hid).1; omega⟩
          obtain ⟨n, hn⟩ := hlength
          rw [hn] at halloc
          dsimp only at hrest
          have hnone₁ : p₁.preemptedReqs = [] := by
            split at hrest
            · cases hrest
              exact hnone
            · obtain ⟨⟨s₃, p₂⟩, hschedule, hrest⟩ := bind_eq_ok.mp hrest
              have hprefix := runningLoop_preemptedReqs hrest
              rw [hnone, List.prefix_nil, (scheduleRunning_plan hschedule).preemptedReqs] at hprefix
              exact hprefix
          obtain ⟨hblocks, hindex, hplan', hquiet'⟩ := allocateRunning_quiet halloc hnone₁
          subst hindex hplan'
          cases newBlocks with
          | none => cases hblocks
          | some blocks =>
            obtain ⟨⟨s₃, p₂⟩, hschedule, hrest⟩ := bind_eq_ok.mp hrest
            exact .schedule t s₁ hplan hsome (Bool.eq_false_iff.mpr hroom) blocks s₃ p₂
              ((hquiet.trans hquiet').trans (scheduleRunning_quiet hschedule))
              (scheduleRunning_plan hschedule) hrest

end Running

/-! ## Decode requests -/

/-- A decode request that asks for one token: its encoder inputs are behind it. -/
structure Decodes (cfg : SchedulerConfig β) (r : Request (List β)) : Prop extends Settled r where
  asks : r.numComputedTokens + 1 = r.numTokens
  short : r.numTokens < cfg.maxModelLen
  encoded : ∀ f ∈ r.mmFeatures, (f.stop : Int) ≤ r.numComputedTokens

/-- A decode request whose step is in flight. -/
structure InFlight (cfg : SchedulerConfig β) (r : Request (List β)) : Prop extends Settled r where
  asks : r.numComputedTokens = r.numTokens
  short : r.numTokens < cfg.maxModelLen

theorem Settled.not_reachesMaxTokens (h : Settled r) : reachesMaxTokens r = false := by
  unfold reachesMaxTokens
  rw [h.numOutputPlaceholders]
  rfl

theorem InFlight.numNewTokensOf (h : InFlight cfg r) {tokenBudget : Int} (hbudget : 0 < tokenBudget) :
    numNewTokensOf cfg r tokenBudget = 0 := by
  have hasks : ((r.numTokens : Nat) : Int) = r.allTokenIds.length := rfl
  have hshort := h.short
  unfold Scheduler.numNewTokensOf Request.numTokensWithSpec
  rw [h.numOutputPlaceholders, h.specTokenIds, h.asks, hasks]
  simp only [List.length_nil, Nat.add_zero]
  unfold Request.numTokens at hshort
  split <;> omega

theorem Decodes.numNewTokensOf (h : Decodes cfg r) {tokenBudget : Int} (hbudget : 0 < tokenBudget) :
    numNewTokensOf cfg r tokenBudget = 1 := by
  have hshort := h.short
  have hasks := h.asks
  unfold Scheduler.numNewTokensOf Request.numTokensWithSpec
  rw [h.numOutputPlaceholders, h.specTokenIds]
  simp only [List.length_nil, Nat.add_zero]
  unfold Request.numTokens at hshort hasks
  split <;> omega

/-- Encoder inputs that are computed do not take tokens away. -/
theorem encoderLoop_computed {requestId : Nat} {numComputedTokens shift : Int} {inputs : List EncoderInput}
    (h : ∀ input ∈ inputs, (input.1.stop : Int) ≤ numComputedTokens) (t : EncoderPlan) (m : EncoderCacheManager) :
    encoderLoop cfg env requestId numComputedTokens shift inputs t m = .ok (t, m) := by
  induction inputs with
  | nil => rfl
  | cons input inputs ih =>
    unfold encoderLoop
    dsimp only
    split
    · rfl
    · rw [if_pos (h input (List.mem_cons_self ..))]
      exact ih fun input hinput => h input (List.mem_cons_of_mem _ hinput)

theorem Decodes.planEncoder (h : Decodes cfg (s.request id)) {n b : Int}
    (hrun : s.planEncoder cfg env id (s.request id).numComputedTokens n b = .ok (t, s')) : t.numNewTokens = n := by
  obtain ⟨⟨t', m'⟩, hplan, hrun⟩ := bind_eq_ok.mp hrun
  cases hrun
  unfold tryScheduleEncoderInputs at hplan
  split at hplan
  · cases hplan
    rfl
  · rw [encoderLoop_computed (fun input hinput => h.encoded input.1 (List.fst_mem_of_mem_zipIdx hinput))] at hplan
    cases hplan
    rfl

theorem planEncoder_zero {numComputedTokens b : Int}
    (hrun : s.planEncoder cfg env id numComputedTokens 0 b = .ok (t, s')) : t.numNewTokens = 0 := by
  obtain ⟨⟨t', m'⟩, hplan, hrun⟩ := bind_eq_ok.mp hrun
  cases hrun
  unfold tryScheduleEncoderInputs at hplan
  rw [if_pos (.inl rfl)] at hplan
  cases hplan
  rfl

/-- Whether a request asks for tokens. -/
def asksToken (s : Scheduler β) (id : Nat) : Bool :=
  decide ((s.request id).numComputedTokens < (s.request id).numTokens)

/-- The requests that a step may take, of `n` running ones. -/
def stageShare (cfg : SchedulerConfig β) (n : Nat) : Nat :=
  min cfg.maxNumPrePipelineReqs ((n + cfg.pipelineParallelSize - 1) / cfg.pipelineParallelSize)

theorem stageIsFull_iff (hlimits : cfg.limitsPipeline = true) {n : Nat} :
    s.stageIsFull cfg n = true ↔ stageShare cfg s.running.length ≤ n := by
  unfold stageIsFull stageShare
  rw [hlimits, Bool.true_and, decide_eq_true_eq]

theorem Decodes.asksToken (h : Decodes cfg (s.request id)) : s.asksToken id = true := by
  have hasks := h.asks
  unfold Scheduler.asksToken
  rw [decide_eq_true_eq]
  omega

theorem InFlight.asksToken (h : InFlight cfg (s.request id)) : s.asksToken id = false := by
  unfold Scheduler.asksToken
  rw [h.asks, decide_eq_false_iff_not]
  exact lt_irrefl _

/-- A decode request, between its steps or in one. -/
def Decoding (cfg : SchedulerConfig β) (r : Request (List β)) : Prop := Decodes cfg r ∨ InFlight cfg r

theorem Decoding.settled (h : Decoding cfg r) : Settled r :=
  h.elim (·.toSettled) (·.toSettled)

theorem Quiet.asksToken {l : List Nat} (h : Quiet s s') (hl : ∀ x ∈ l, Decoding cfg (s.request x)) :
    l.filter s'.asksToken = l.filter s.asksToken := by
  apply List.filter_congr
  intro x hx
  unfold Scheduler.asksToken
  rw [h.request x (hl x hx).settled]

/-- The running loop over decode requests: the first ones that ask for a token get it, up to the share. -/
theorem runningLoop_round [DecidableEq β] (hlimits : cfg.limitsPipeline = true) {reqIndex : Nat} (rest extra : List Nat)
    (hdrop : s.running.drop reqIndex = rest ++ extra) (hfuel : s.running.length ≤ fuel + reqIndex)
    (hrest : ∀ x ∈ rest, Decoding cfg (s.request x)) (hbudget : rest ≠ [] → (rest.length : Int) ≤ p.tokenBudget)
    (hrun : runningLoop cfg env fuel reqIndex s p = .ok (s', p')) (hnone : p'.preemptedReqs = []) :
    Quiet s s' ∧ ∀ x ∉ extra, p'.numScheduledTokens.get? x =
      if x ∈ (rest.filter s.asksToken).take (stageShare cfg s.running.length - p.scheduledRunningReqs.length) then
        some 1
      else p.numScheduledTokens.get? x := by
  induction fuel generalizing reqIndex rest extra s p with
  | zero =>
    have hnil : s.running.drop reqIndex = [] := List.drop_eq_nil_of_le (by omega)
    rw [hnil] at hdrop
    obtain ⟨rfl, -⟩ := List.append_eq_nil_iff.mp hdrop.symm
    obtain ⟨rfl, rfl⟩ := ok_pair hrun
    exact ⟨.refl s, fun x _ => by simp⟩
  | succ fuel ih =>
    cases hid : s.running[reqIndex]? with
    | none =>
      have hnil : s.running.drop reqIndex = [] := List.drop_eq_nil_of_le (List.getElem?_eq_none_iff.mp hid)
      rw [hnil] at hdrop
      obtain ⟨rfl, -⟩ := List.append_eq_nil_iff.mp hdrop.symm
      rw [runningLoop, hid] at hrun
      obtain ⟨rfl, rfl⟩ := ok_pair hrun
      exact ⟨.refl s, fun x _ => by simp⟩
    | some id =>
      have hcons : s.running.drop reqIndex = id :: s.running.drop (reqIndex + 1) := by
        obtain ⟨hlt, rfl⟩ := List.getElem?_eq_some_iff.mp hid
        exact List.drop_eq_getElem_cons hlt
      rw [hcons] at hdrop
      have hfuel' : s.running.length ≤ fuel + (reqIndex + 1) := by omega
      cases rest with
      | nil =>
        -- behind the decode requests, others get their tokens
        rw [List.nil_append] at hdrop
        obtain rfl := hdrop.symm
        cases runningLoop_turn hid hrun hnone with
        | stop _ hs hp =>
          subst hs hp
          exact ⟨.refl s', fun x _ => by simp⟩
        | skip _ s₁ hquiet hrun =>
          have hrunning := hquiet.running
          obtain ⟨hquiet', htokens⟩ := ih [] (s.running.drop (reqIndex + 1))
            (by rw [hrunning]; rfl) (by rw [hrunning]; exact hfuel') (by simp) (by simp) hrun
          refine ⟨hquiet.trans hquiet', fun x hx => ?_⟩
          rw [htokens x (fun hmem => hx (List.mem_cons_of_mem _ hmem))]
          simp
        | schedule t s₁ _ _ _ newBlocks s₂ p₁ hquiet hsame hrun =>
          have hrunning := hquiet.running
          obtain ⟨hquiet', htokens⟩ := ih [] (s.running.drop (reqIndex + 1))
            (by rw [hrunning]; rfl) (by rw [hrunning]; exact hfuel') (by simp) (by simp) hrun
          refine ⟨hquiet.trans hquiet', fun x hx => ?_⟩
          have hne : x ≠ id := fun heq => hx (heq ▸ List.mem_cons_self ..)
          rw [htokens x (fun hmem => hx (List.mem_cons_of_mem _ hmem)), hsame.numScheduledTokens]
          unfold Plan.assign
          rw [Dict.get?_set_of_ne _ _ hne]
          simp
      | cons y rest =>
        rw [List.cons_append, List.cons.injEq] at hdrop
        obtain ⟨rfl, hdrop⟩ := hdrop
        have hid' := hrest id (List.mem_cons_self ..)
        have hrest' : ∀ x ∈ rest, Decoding cfg (s.request x) :=
          fun x hx => hrest x (List.mem_cons_of_mem _ hx)
        have hpos : 0 < p.tokenBudget := by
          have hle := hbudget (List.cons_ne_nil _ _)
          rw [List.length_cons] at hle
          omega
        cases runningLoop_turn hid hrun hnone with
        | stop hstop hs hp =>
          subst hs hp
          have hfull : stageShare cfg s'.running.length ≤ p'.scheduledRunningReqs.length := by
            rcases hstop with hle | hfull
            · omega
            · exact (stageIsFull_iff hlimits).mp hfull
          refine ⟨.refl s', fun x _ => ?_⟩
          rw [Nat.sub_eq_zero_of_le hfull]
          simp
        | skip hskip s₁ hquiet hrun =>
          -- it is in flight, or else it would ask for a token
          have hasks : s.asksToken id = false := by
            rcases hid' with hdecodes | hflight
            · exfalso
              rcases hskip with hreaches | ⟨t, s₀, hplan, hzero⟩
              · rw [hdecodes.toSettled.not_reachesMaxTokens] at hreaches
                cases hreaches
              · rw [hdecodes.planEncoder hplan, hdecodes.numNewTokensOf hpos] at hzero
                cases hzero
            · exact hflight.asksToken
          have hrunning := hquiet.running
          obtain ⟨hquiet', htokens⟩ := ih rest extra
            (by rw [hrunning]; exact hdrop) (by rw [hrunning]; exact hfuel')
            (fun x hx => by rw [hquiet.request x (hrest' x hx).settled]; exact hrest' x hx)
            (fun _ => by
              have hle := hbudget (List.cons_ne_nil _ _)
              rw [List.length_cons] at hle
              omega) hrun
          refine ⟨hquiet.trans hquiet', fun x hx => ?_⟩
          rw [htokens x hx, hquiet.asksToken hrest', hrunning, List.filter_cons_of_neg (by rw [hasks]; simp)]
        | schedule t s₁ hplan hsome hroom newBlocks s₂ p₁ hquiet hsame hrun =>
          have hdecodes : Decodes cfg (s.request id) := by
            rcases hid' with hdecodes | hflight
            · exact hdecodes
            · rw [hflight.numNewTokensOf hpos] at hplan
              exact absurd (planEncoder_zero hplan) hsome
          have hone : t.numNewTokens = 1 := by
            rw [hdecodes.planEncoder hplan, hdecodes.numNewTokensOf hpos]
          have hroom' : p.scheduledRunningReqs.length < stageShare cfg s.running.length := by
            rw [← not_le, ← stageIsFull_iff hlimits, hroom]
            exact Bool.false_ne_true
          have hrunning := hquiet.running
          have hlength : p₁.scheduledRunningReqs.length = p.scheduledRunningReqs.length + 1 := by
            rw [hsame.runningReqs]
            exact List.length_append
          obtain ⟨hquiet', htokens⟩ := ih rest extra
            (by rw [hrunning]; exact hdrop) (by rw [hrunning]; exact hfuel')
            (fun x hx => by rw [hquiet.request x (hrest' x hx).settled]; exact hrest' x hx)
            (fun _ => by
              have hle := hbudget (List.cons_ne_nil _ _)
              have hbudget₁ : p₁.tokenBudget = p.tokenBudget - t.numNewTokens := hsame.tokenBudget
              rw [List.length_cons] at hle
              omega) hrun
          refine ⟨hquiet.trans hquiet', fun x hx => ?_⟩
          rw [htokens x hx, hquiet.asksToken hrest', hrunning, List.filter_cons_of_pos hdecodes.asksToken,
            hlength, hsame.numScheduledTokens]
          obtain ⟨n, hn⟩ : ∃ n, stageShare cfg s.running.length - p.scheduledRunningReqs.length = n + 1 :=
            ⟨_, (Nat.succ_pred_eq_of_pos (Nat.sub_pos_of_lt hroom')).symm⟩
          have hn' : stageShare cfg s.running.length - (p.scheduledRunningReqs.length + 1) = n := by omega
          rw [hn, hn', List.take_succ_cons]
          unfold Plan.assign
          rw [Dict.get?_set, hone]
          by_cases hx' : x = id
          · simp [hx']
          · simp [hx']

/-! ## A step -/

/-- A request `n` tokens further. -/
def advanced (r : Request (List β)) (n : Int) : Request (List β) :=
  { r with
    numComputedTokens := r.numComputedTokens + n
    isPrefillChunk := r.numComputedTokens + n < r.numTokens + r.numOutputPlaceholders }

theorem advanceRequest_self (s : Scheduler β) (id : Nat) (n : Int) :
    (s.advanceRequest id n).request id = advanced (s.request id) n := by
  show (s.modify id fun r => advanced r n).request id = _
  exact modify_request_self s id _

theorem advanceRequest_of_ne (s : Scheduler β) {id x : Nat} (n : Int) (h : x ≠ id) :
    (s.advanceRequest id n).request x = s.request x := by
  show (s.modify id fun r => advanced r n).request x = _
  exact modify_request_of_ne s h _

/-- A decode request that is scheduled is in flight. -/
theorem Decodes.advanced (h : Decodes cfg r) : InFlight cfg (advanced r 1) where
  status := h.status
  started := by
    have hstarted := h.started
    show 0 < r.numComputedTokens + 1
    omega
  specTokenIds := h.specTokenIds
  numOutputPlaceholders := h.numOutputPlaceholders
  asks := h.asks
  short := h.short

theorem foldl_advanceRequest_pauseState (entries : List (Nat × Int)) (s : Scheduler β) :
    (entries.foldl (fun s e => s.advanceRequest e.1 e.2) s).pauseState = s.pauseState := by
  induction entries generalizing s with
  | nil => rfl
  | cons e entries ih => exact ih (s.advanceRequest e.1 e.2)

/-- Advancing the requests of a step, each once. -/
theorem foldl_advanceRequest_request {entries : List (Nat × Int)} (hnodup : (entries.map Prod.fst).Nodup)
    (s : Scheduler β) (x : Nat) :
    (entries.foldl (fun s e => s.advanceRequest e.1 e.2) s).request x =
      ((entries.lookup x).map (advanced (s.request x))).getD (s.request x) := by
  induction entries generalizing s with
  | nil => rfl
  | cons e entries ih =>
    obtain ⟨id, n⟩ := e
    rw [List.map_cons, List.nodup_cons] at hnodup
    rw [List.foldl_cons, ih hnodup.2, List.lookup_cons]
    by_cases hx : x = id
    · subst hx
      have hnone : entries.lookup x = none := by
        rw [List.lookup_eq_none_iff]
        intro e he
        rw [bne_iff_ne]
        rintro rfl
        exact hnodup.1 (List.mem_map.mpr ⟨e, he, rfl⟩)
      rw [hnone, advanceRequest_self, BEq.rfl]
      rfl
    · rw [advanceRequest_of_ne s n hx, beq_false_of_ne hx]

theorem filter_not_mem_take {l : List Nat} (h : l.Nodup) (n : Nat) : l.filter (· ∉ l.take n) = l.drop n := by
  have hdisjoint : ∀ x ∈ l.drop n, x ∉ l.take n := by
    intro x hx hx'
    rw [← List.take_append_drop n l] at h
    exact List.disjoint_of_nodup_append h hx' hx
  calc l.filter (· ∉ l.take n)
      = (l.take n).filter (· ∉ l.take n) ++ (l.drop n).filter (· ∉ l.take n) := by
        rw [← List.filter_append, List.take_append_drop]
    _ = [] ++ l.drop n := by
        congr 1
        · rw [List.filter_eq_nil_iff]
          intro x hx
          simp [hx]
        · rw [List.filter_eq_self]
          intro x hx
          simpa using hdisjoint x hx
    _ = l.drop n := List.nil_append _

/-- Decode requests lead the running list, and nothing else in it is one. -/
structure Leading (cfg : SchedulerConfig β) (s : Scheduler β) (ids : List Nat) : Prop where
  nodup : ids.Nodup
  decoding : ∀ x ∈ ids, Decoding cfg (s.request x)
  running : ∃ extra, s.running = ids ++ extra ∧ ∀ x ∈ ids, x ∉ extra

theorem initialPlan_tokenBudget (h : s.pauseState ≠ .pausedAll) :
    (s.initialPlan cfg).tokenBudget = cfg.maxNumScheduledTokens := by
  unfold initialPlan
  dsimp only
  rw [if_neg h]

/-- A step of the synchronous scheduler that preempts nothing gives the first decode requests that ask for a token
this token, up to its share. -/
theorem schedule_round [DecidableEq β] (hlimits : cfg.limitsPipeline = true) (hsync : cfg.asyncScheduling = false)
    {ids : List Nat} (h : Leading cfg s ids) (hpause : s.pauseState ≠ .pausedAll)
    (hbudget : ids.length ≤ cfg.maxNumScheduledTokens) {output : SchedulerOutput}
    (hrun : s.schedule cfg env = .ok (output, s')) (hnone : output.preemptedReqIds = []) :
    Leading cfg s' ids ∧ s'.pauseState = s.pauseState ∧ ids.length ≤ cfg.maxNumRunningReqs ∧
      ∃ n, stageShare cfg ids.length ≤ n ∧
        (∀ x ∈ ids, x ∈ output.numScheduledTokens.keys ↔ x ∈ (ids.filter s.asksToken).take n) ∧
        ids.filter s'.asksToken = (ids.filter s.asksToken).drop n := by
  obtain ⟨s₃, s₁, s₂, p₃, p₄, p, n, hloop, hloras, hplan, hcheck, houtput, rfl⟩ := schedule_parts hrun
  obtain ⟨htokens, hpreempted, -, hrequest₂, hrunning₂, hpause₂⟩ := makeOutput_plan houtput
  rw [hpreempted, List.dedup_eq_nil] at hnone
  have hgrows := scheduleWaitingReqs_grows hplan
  have hsame := recordLoras_sameScheduled hloras
  have hnone₃ : p₃.preemptedReqs = [] := by
    rw [← hsame.preemptedReqs, ← hgrows.preemptedReqs]
    exact hnone
  obtain ⟨extra, hrunning, hextra⟩ := h.running
  obtain ⟨hquiet, hround⟩ := runningLoop_round hlimits ids extra (by rw [← hrunning]; rfl)
    (by omega) h.decoding (fun _ => by
      rw [initialPlan_tokenBudget hpause]
      exact_mod_cast hbudget) hloop hnone₃
  -- what the rest of the step keeps
  have hsettled : ∀ x ∈ ids, Settled (s.request x) := fun x hx => (h.decoding x hx).settled
  have hsettled₃ : ∀ x ∈ ids, Settled (s₃.request x) :=
    fun x hx => by rw [hquiet.request x (hsettled x hx)]; exact hsettled x hx
  have hrequest : ∀ x ∈ ids, s₂.request x = s.request x := by
    intro x hx
    rw [hrequest₂, hgrows.request x (hsettled₃ x hx), hquiet.request x (hsettled x hx)]
  have htaken : ∀ x ∈ ids, output.numScheduledTokens.get? x =
      if x ∈ (ids.filter s.asksToken).take (stageShare cfg s.running.length) then some 1 else none := by
    intro x hx
    rw [htokens, hgrows.tokens x (hsettled₃ x hx), hsame.numScheduledTokens, hround x (hextra x hx)]
    rfl
  have hafter : s₂.updateAfterSchedule cfg output = { output.numScheduledTokens.entries.foldl
      (fun s e => s.advanceRequest e.1 e.2) s₂ with finishedReqIds := [] } := by
    unfold updateAfterSchedule
    dsimp only
    rw [if_neg (by rw [hsync]; exact Bool.false_ne_true)]
  have hadvanced : ∀ x ∈ ids, (s₂.updateAfterSchedule cfg output).request x =
      if x ∈ (ids.filter s.asksToken).take (stageShare cfg s.running.length) then advanced (s.request x) 1
      else s.request x := by
    intro x hx
    rw [hafter]
    dsimp only
    rw [foldl_advanceRequest_request output.numScheduledTokens.nodup, hrequest x hx]
    have hx' := htaken x hx
    unfold Dict.get? at hx'
    rw [hx']
    split <;> rfl
  have hasked : ∀ x ∈ ids, s.asksToken x = true → Decodes cfg (s.request x) := by
    intro x hx hasks
    rcases h.decoding x hx with hdecodes | hflight
    · exact hdecodes
    · rw [hflight.asksToken] at hasks
      cases hasks
  have hflight : ∀ x ∈ (ids.filter s.asksToken).take (stageShare cfg s.running.length),
      x ∈ ids ∧ InFlight cfg ((s₂.updateAfterSchedule cfg output).request x) := by
    intro x hx
    obtain ⟨hmem, hasks⟩ := List.mem_filter.mp (List.mem_of_mem_take hx)
    rw [hadvanced x hmem, if_pos hx]
    exact ⟨hmem, (hasked x hmem hasks).advanced⟩
  refine ⟨⟨h.nodup, fun x hx => ?_, ?_⟩, ?_, ?_, stageShare cfg s.running.length, ?_, fun x hx => ?_, ?_⟩
  · by_cases hx' : x ∈ (ids.filter s.asksToken).take (stageShare cfg s.running.length)
    · exact .inr (hflight x hx').2
    · rw [hadvanced x hx, if_neg hx']
      exact h.decoding x hx
  · obtain ⟨admitted, hadmitted, hnot⟩ := hgrows.running
    refine ⟨extra ++ admitted, ?_, fun x hx hmem => ?_⟩
    · rw [(updateAfterSchedule_steps cfg s₂ output).keepsQueues.running, hrunning₂, hadmitted, hquiet.running, hrunning,
        List.append_assoc]
    · rcases List.mem_append.mp hmem with hmem | hmem
      · exact hextra x hx hmem
      · exact hnot x hmem (hsettled₃ x hx)
  · rw [hafter]
    dsimp only
    rw [foldl_advanceRequest_pauseState, hpause₂, hgrows.pauseState, hquiet.pauseState]
  · obtain ⟨_, -, hcheck⟩ := bind_eq_ok.mp hcheck
    obtain ⟨_, -, hcheck⟩ := bind_eq_ok.mp hcheck
    obtain ⟨_, hmax, -⟩ := bind_eq_ok.mp hcheck
    have hmax := of_decide_eq_true (pyAssert_eq_ok.mp hmax)
    obtain ⟨admitted, hadmitted, -⟩ := hgrows.running
    rw [hadmitted, hquiet.running, hrunning, List.length_append, List.length_append] at hmax
    omega
  · unfold stageShare
    rw [hrunning, List.length_append]
    exact min_le_min_left _ (Nat.div_le_div_right (by omega))
  · rw [← Dict.isSome_get?, htaken x hx]
    split
    case isTrue hmem => simp [hmem]
    case isFalse hmem => simp [hmem]
  · rw [← filter_not_mem_take (h.nodup.filter _), List.filter_filter]
    apply List.filter_congr
    intro x hx
    by_cases hx' : x ∈ (ids.filter s.asksToken).take (stageShare cfg s.running.length)
    · rw [(hflight x hx').2.asksToken]
      simp [hx']
    · have hkept : (s₂.updateAfterSchedule cfg output).asksToken x = s.asksToken x := by
        unfold asksToken
        rw [hadvanced x hx, if_neg hx']
      rw [hkept]
      simp [hx']

/-! ## As many steps as there are stages -/

/-- Calls of `schedule`, one after the other, without any output in between. -/
def scheduleAll [DecidableEq β] (cfg : SchedulerConfig β) : List ScheduleEnv → Scheduler β →
    Except PyError (List SchedulerOutput × Scheduler β)
  | [], s => return ([], s)
  | env :: envs, s => do
    let (output, s) ← s.schedule cfg env
    let (outputs, s) ← scheduleAll cfg envs s
    return (output :: outputs, s)

/-- The decode requests that ask for a token get it in the order of the running list, each in one step. -/
theorem scheduleAll_rounds [DecidableEq β] (hlimits : cfg.limitsPipeline = true)
    (hsync : cfg.asyncScheduling = false) {envs : List ScheduleEnv} {ids : List Nat} (h : Leading cfg s ids)
    (hpause : s.pauseState ≠ .pausedAll) (hbudget : ids.length ≤ cfg.maxNumScheduledTokens)
    {outputs : List SchedulerOutput} (hrun : s.scheduleAll cfg envs = .ok (outputs, s'))
    (hnone : ∀ o ∈ outputs, o.preemptedReqIds = []) :
    (∀ x ∈ ids, s.asksToken x = false → ∀ o ∈ outputs, x ∉ o.numScheduledTokens.keys) ∧
    ∀ x ∈ (ids.filter s.asksToken).take (envs.length * stageShare cfg ids.length),
      ∃! k : Nat, ∃ o : SchedulerOutput, outputs[k]? = some o ∧ x ∈ o.numScheduledTokens.keys := by
  induction envs generalizing s outputs with
  | nil =>
    cases hrun
    refine ⟨fun x _ _ o ho => (by cases ho), fun x hx => ?_⟩
    rw [List.length_nil, Nat.zero_mul, List.take_zero] at hx
    cases hx
  | cons env envs ih =>
    obtain ⟨⟨output, s₁⟩, hone, hrun⟩ := bind_eq_ok.mp hrun
    obtain ⟨⟨rest, s₂⟩, hrest, hrun⟩ := bind_eq_ok.mp hrun
    cases hrun
    obtain ⟨h₁, hpause₁, -, n, hshare, htaken, hasks⟩ :=
      schedule_round hlimits hsync h hpause hbudget hone (hnone output (List.mem_cons_self ..))
    obtain ⟨hquiet, hrounds⟩ := ih h₁ (by rw [hpause₁]; exact hpause) hrest
      fun o ho => hnone o (List.mem_cons_of_mem _ ho)
    have hmem : ∀ x ∈ ids, s₁.asksToken x = true ↔ x ∈ (ids.filter s.asksToken).drop n := by
      intro x hx
      rw [← hasks, List.mem_filter]
      exact ⟨fun h => ⟨hx, h⟩, fun h => h.2⟩
    have hnodup : (ids.filter s.asksToken).Nodup := h.nodup.filter _
    constructor
    · intro x hx hidle o ho
      have hnot : x ∉ ids.filter s.asksToken := by
        rw [List.mem_filter, hidle]
        exact fun h => Bool.false_ne_true h.2
      rcases List.mem_cons.mp ho with rfl | ho
      · rw [htaken x hx]
        exact fun h => hnot (List.mem_of_mem_take h)
      · refine hquiet x hx ?_ o ho
        rw [← Bool.not_eq_true, hmem x hx]
        exact fun h => hnot (List.mem_of_mem_drop h)
    · intro x hx
      have hx' := List.mem_of_mem_take hx
      have hid := (List.mem_filter.mp hx').1
      by_cases hfirst : x ∈ (ids.filter s.asksToken).take n
      · -- scheduled in the first step, and in flight from then on
        have hidle : s₁.asksToken x = false := by
          rw [← Bool.not_eq_true, hmem x hid]
          rw [← List.take_append_drop n (ids.filter s.asksToken)] at hnodup
          exact fun h => List.disjoint_of_nodup_append hnodup hfirst h
        refine ⟨0, ⟨output, rfl, (htaken x hid).mpr hfirst⟩, ?_⟩
        rintro k ⟨o, hk, hkeys⟩
        cases k with
        | zero => rfl
        | succ k => exact absurd hkeys (hquiet x hid hidle o (List.mem_of_getElem? hk))
      · have hlater : x ∈ (ids.filter s₁.asksToken).take (envs.length * stageShare cfg ids.length) := by
          rw [hasks]
          obtain ⟨i, hi⟩ := List.mem_iff_getElem?.mp hx
          rw [List.getElem?_take] at hi
          split at hi
          case isTrue hlt =>
            have hle : n ≤ i := by
              by_contra hlt'
              apply hfirst
              apply List.mem_of_getElem? (i := i)
              rw [List.getElem?_take, if_pos (by omega)]
              exact hi
            apply List.mem_of_getElem? (i := i - n)
            rw [List.length_cons, Nat.succ_mul] at hlt
            rw [List.getElem?_take, if_pos (by omega), List.getElem?_drop, Nat.add_sub_cancel' hle]
            exact hi
          case isFalse => cases hi
        obtain ⟨k, ⟨o, hk, hkeys⟩, hunique⟩ := hrounds x hlater
        refine ⟨k + 1, ⟨o, hk, hkeys⟩, ?_⟩
        rintro k' ⟨o', hk', hkeys'⟩
        cases k' with
        | zero =>
          cases hk'
          exact absurd ((htaken x hid).mp hkeys') hfirst
        | succ k' =>
          rw [hunique k' ⟨o', hk', hkeys'⟩]

/-- With several stages, a step has at most its share of `max_num_seqs` requests. And as many steps of the synchronous
scheduler as there are stages, without any output in between, give each decode request its token, once. -/
theorem pipeline_stages [DecidableEq β] (cfg : SchedulerConfig β) (s : Scheduler β)
    (hlimits : cfg.limitsPipeline = true) :
    (∀ env output s', s.schedule cfg env = .ok (output, s') →
      output.numScheduledTokens.keys.length ≤ cfg.maxNumPrePipelineReqs ∧
      output.scheduledNewReqs.length + output.scheduledCachedReqs.reqIds.length ≤ cfg.maxNumPrePipelineReqs) ∧
    (cfg.asyncScheduling = false → s.running.Nodup → (∀ id ∈ s.running, Decodes cfg (s.request id)) →
      s.pauseState ≠ .pausedAll → s.running.length ≤ cfg.maxNumScheduledTokens →
      ∀ envs outputs s', envs.length = cfg.pipelineParallelSize →
        s.scheduleAll cfg envs = .ok (outputs, s') → (∀ o ∈ outputs, o.preemptedReqIds = []) →
        ∀ id ∈ s.running, ∃! k : Nat, ∃ o : SchedulerOutput,
          outputs[k]? = some o ∧ id ∈ o.numScheduledTokens.keys) := by
  refine ⟨fun env output s' hrun => schedule_capped hlimits hrun, ?_⟩
  intro hsync hnodup hdecodes hpause hbudget envs outputs s' henvs hrun hnone id hid
  have hstages : 1 < cfg.pipelineParallelSize := by
    unfold SchedulerConfig.limitsPipeline at hlimits
    exact of_decide_eq_true (Bool.and_eq_true_iff.mp hlimits).2
  have hleading : Leading cfg s s.running :=
    ⟨hnodup, fun x hx => .inl (hdecodes x hx), [], (List.append_nil _).symm, fun _ _ h => by cases h⟩
  have hmax : s.running.length ≤ cfg.maxNumRunningReqs := by
    cases envs with
    | nil =>
      rw [List.length_nil] at henvs
      omega
    | cons env envs =>
      obtain ⟨⟨output, s₁⟩, hone, hrun⟩ := bind_eq_ok.mp hrun
      obtain ⟨⟨rest, s₂⟩, -, hrun⟩ := bind_eq_ok.mp hrun
      cases hrun
      exact (schedule_round hlimits hsync hleading hpause hbudget hone (hnone output (List.mem_cons_self ..))).2.2.1
  -- the shares cover all requests
  have hcover : s.running.length ≤ envs.length * stageShare cfg s.running.length := by
    have hshare : stageShare cfg s.running.length =
        (s.running.length + cfg.pipelineParallelSize - 1) / cfg.pipelineParallelSize := by
      unfold stageShare SchedulerConfig.maxNumPrePipelineReqs
      exact min_eq_right (Nat.div_le_div_right (by omega))
    rw [hshare, henvs, Nat.mul_comm]
    have hdiv := Nat.lt_div_mul_add (a := s.running.length + cfg.pipelineParallelSize - 1)
      (b := cfg.pipelineParallelSize) (by omega)
    omega
  obtain ⟨-, hrounds⟩ := scheduleAll_rounds hlimits hsync hleading hpause hbudget hrun hnone
  apply hrounds id
  have hall : s.running.filter s.asksToken = s.running :=
    List.filter_eq_self.mpr fun x hx => (hdecodes x hx).asksToken
  rw [hall, List.take_of_length_le hcover]
  exact hid

/-- Two stages, and up to four requests. -/
def twoStages (asyncScheduling : Bool) : SchedulerConfig Nat where
  maxNumRunningReqs := 4
  maxNumScheduledTokens := 8
  pipelineParallelSize := 2
  asyncScheduling
  kvCacheManager := KVCacheManager.windowOfTwo
  coordinator := .unitary false
  hashes := ⟨[], fun _ => [], fun _ => []⟩

/-- Two requests with two tokens each, and the first token that was sampled for them. -/
def twoDecodes (cfg : SchedulerConfig Nat) : Except PyError (Scheduler Nat) := do
  let (_, kv) ← PoolRuns.start 16 true []
  let s := (Scheduler.init kv 0).addNewRequest cfg (KVCacheManager.countingRequest 0 2 0)
  let s := s.addNewRequest cfg (KVCacheManager.countingRequest 1 2 0)
  let (output, s) ← s.schedule cfg {}
  s.updateFromOutput cfg output { sampledTokenIds := fun _ => [5] }

/-- Each of the two requests is in one of two steps. -/
theorem pipeline_stages_two :
    ∃ s outputs s', twoDecodes (twoStages false) = .ok s ∧
      s.scheduleAll (twoStages false) [{}, {}] = .ok (outputs, s') ∧
      ∀ id ∈ s.running, ∃! k : Nat, ∃ o : SchedulerOutput, outputs[k]? = some o ∧ id ∈ o.numScheduledTokens.keys := by
  refine ⟨_, _, _, rfl, rfl, ?_⟩
  apply (pipeline_stages (twoStages false) _ rfl).2 rfl (by decide +kernel) ?_ (by decide +kernel) (by decide +kernel)
    [{}, {}] _ _ rfl rfl (by decide +kernel)
  intro id hid
  have hid' : id = 0 ∨ id = 1 := by
    rcases List.mem_cons.mp hid with h | h
    · exact .inl h
    · exact .inr (List.mem_singleton.mp h)
  rcases hid' with rfl | rfl
  · exact ⟨⟨rfl, by decide +kernel, rfl, rfl⟩, by decide +kernel, by decide +kernel, by decide +kernel⟩
  · exact ⟨⟨rfl, by decide +kernel, rfl, rfl⟩, by decide +kernel, by decide +kernel, by decide +kernel⟩

/-- Asynchronously, the first request is scheduled again while its step is in flight, and the second one not at all.
And with drafts, a request in flight asks for a negative number of tokens, and is scheduled again. -/
theorem pipeline_stages_fails :
    (∃ s first second s', twoDecodes (twoStages true) = .ok s ∧ s.running = [0, 1] ∧
      s.scheduleAll (twoStages true) [{}, {}] = .ok ([first, second], s') ∧
      first.numScheduledTokens.entries = [(0, 1)] ∧ second.numScheduledTokens.entries = [(0, 1)]) ∧
    ∃ s first second s', twoDecodes (twoStages false) = .ok s ∧ s.running = [0, 1] ∧
      (s.updateDraftTokenIds (fun _ l => l) [(0, [7]), (1, [7])]).scheduleAll (twoStages false) [{}, {}] =
        .ok ([first, second], s') ∧
      first.numScheduledTokens.entries = [(0, 2)] ∧ second.numScheduledTokens.entries = [(0, -1)] := by
  constructor
  · exact ⟨_, _, _, _, rfl, rfl, rfl, rfl, rfl⟩
  · exact ⟨_, _, _, _, rfl, rfl, rfl, rfl, rfl⟩

end Scheduler
end Yuan.Core
