import Yuan.Core.WaitingOrder

/-!
# The stages of the pipeline

With several stages, a step takes its share of the requests: the running loop stops at a share of the running
list, the waiting loop at a share of `max_num_seqs`. The requests of the steps in flight ask for no tokens, so the
steps behind take the others.
-/

namespace Yuan

theorem Dict.length_keys_set_le {α β : Type} [DecidableEq α] (d : Dict α β) (k : α) (v : β) :
    (d.set k v).keys.length ≤ d.keys.length + 1 := by
  by_cases h : k ∈ d.keys
  case pos =>
    rw [Dict.keys_set_of_mem h]
    exact Nat.le_succ _
  case neg => exact (Dict.length_keys_set_of_not_mem h v).le

namespace Core

/-- The number of requests that a plan lists. -/
def Plan.numReqs (p : Plan) : Nat :=
  p.scheduledNewReqs.length + p.scheduledRunningReqs.length + p.scheduledResumedReqs.length

/-- A plan lists at most `n` requests, and all those it has tokens for. -/
structure Plan.Capped (n : Nat) (p : Plan) : Prop where
  keys : p.numScheduledTokens.keys.length ≤ p.numReqs
  cap : p.numReqs ≤ n

namespace Scheduler

variable {β : Type} {cfg : SchedulerConfig β} {env : ScheduleEnv} {s s' : Scheduler β}
variable {p p' : Plan} {id : Nat} {n fuel : Nat} {t : EncoderPlan}

/-! ## The cap -/

/-- A plan of the running loop. -/
structure OnlyRunning (n : Nat) (p : Plan) : Prop extends p.Capped n where
  newReqs : p.scheduledNewReqs = []
  resumedReqs : p.scheduledResumedReqs = []

theorem withdraw_onlyRunning (h : OnlyRunning n p) (hmem : id ∈ p.scheduledRunningReqs)
    (hrun : p.withdraw id = .ok p') : OnlyRunning n p' := by
  unfold Plan.withdraw at hrun
  split at hrun
  · next numNewTokens _ hget _ =>
    cases hrun
    have hkeys := Dict.length_keys_erase hget
    have hlength := List.length_erase_of_mem hmem
    obtain ⟨⟨hle, hcap⟩, hnew, hresumed⟩ := h
    unfold Plan.numReqs at hle hcap
    refine ⟨⟨?_, ?_⟩, hnew, hresumed⟩
    · show (p.numScheduledTokens.erase id).keys.length ≤ p.scheduledNewReqs.length +
        (p.scheduledRunningReqs.erase id).length + p.scheduledResumedReqs.length
      omega
    · show p.scheduledNewReqs.length + (p.scheduledRunningReqs.erase id).length +
        p.scheduledResumedReqs.length ≤ n
      omega
  · cases hrun

theorem AllocateStep.onlyRunning [DecidableEq β] {x y : Scheduler β × Plan} (hstep : AllocateStep cfg x y)
    (h : OnlyRunning n x.2) : OnlyRunning n y.2 := by
  cases hstep with
  | slots => exact h
  | @preempt s s₁ s' p p₁ id _ _ hpop =>
    have hpopped : OnlyRunning n p₁ := by
      rcases popPreempted_cases hpop with ⟨-, -, -, rfl | ⟨hmem, hwithdraw⟩⟩ | ⟨-, -, -, rfl⟩
      · exact h
      · exact withdraw_onlyRunning h hmem hwithdraw
      · exact h
    exact ⟨⟨hpopped.keys, hpopped.cap⟩, hpopped.newReqs, hpopped.resumedReqs⟩

theorem allocateRunning_onlyRunning [DecidableEq β] {numNewTokens : Int} {reqIndex reqIndex' : Nat}
    {newBlocks : Option (List (List Nat))} (h : OnlyRunning n p)
    (hrun : allocateRunning cfg id numNewTokens fuel reqIndex s p = .ok (newBlocks, reqIndex', s', p')) :
    OnlyRunning n p' :=
  kept_by_steps (I := fun x : Scheduler β × Plan => OnlyRunning n x.2) AllocateStep.onlyRunning
    (allocateRunning_steps hrun) h

/-- Plans with the same lists of requests, the same tokens for them and the same budget. -/
structure SameScheduled (p p' : Plan) : Prop where
  preemptedReqs : p'.preemptedReqs = p.preemptedReqs
  tokenBudget : p'.tokenBudget = p.tokenBudget
  runningReqs : p'.scheduledRunningReqs = p.scheduledRunningReqs
  newReqs : p'.scheduledNewReqs = p.scheduledNewReqs
  resumedReqs : p'.scheduledResumedReqs = p.scheduledResumedReqs
  numScheduledTokens : p'.numScheduledTokens = p.numScheduledTokens

theorem SameScheduled.trans {p'' : Plan} (h : SameScheduled p p') (h' : SameScheduled p' p'') :
    SameScheduled p p'' where
  preemptedReqs := h'.preemptedReqs.trans h.preemptedReqs
  tokenBudget := h'.tokenBudget.trans h.tokenBudget
  runningReqs := h'.runningReqs.trans h.runningReqs
  newReqs := h'.newReqs.trans h.newReqs
  resumedReqs := h'.resumedReqs.trans h.resumedReqs
  numScheduledTokens := h'.numScheduledTokens.trans h.numScheduledTokens

theorem SameScheduled.numReqs (h : SameScheduled p p') : p'.numReqs = p.numReqs := by
  unfold Plan.numReqs
  rw [h.newReqs, h.runningReqs, h.resumedReqs]

theorem SameScheduled.capped (h : SameScheduled p p') (hp : p.Capped n) : p'.Capped n where
  keys := by
    rw [h.numScheduledTokens, h.numReqs]
    exact hp.keys
  cap := by
    rw [h.numReqs]
    exact hp.cap

theorem assignEncoder_sameScheduled (p : Plan) (id : Nat) (t : EncoderPlan) :
    SameScheduled p (p.assignEncoder id t) := by
  unfold Plan.assignEncoder
  split <;> exact ⟨rfl, rfl, rfl, rfl, rfl, rfl⟩

theorem planSpecTokens_sameScheduled (p : Plan) (r : Request (List β)) (id : Nat) (n : Int) :
    SameScheduled p (planSpecTokens p r id n) := by
  unfold planSpecTokens
  dsimp only
  split <;> exact ⟨rfl, rfl, rfl, rfl, rfl, rfl⟩

/-- A running request that is scheduled is listed, with its tokens. -/
theorem scheduleRunning_plan {newBlocks : List (List Nat)} (hrun : s.scheduleRunning p id newBlocks t = .ok (s', p')) :
    SameScheduled ({ p with scheduledRunningReqs := p.scheduledRunningReqs ++ [id] }.assign id newBlocks
      t.numNewTokens) p' := by
  obtain ⟨s₁, -, hrun⟩ := bind_eq_ok.mp hrun
  cases hrun
  exact (planSpecTokens_sameScheduled _ _ _ _).trans (assignEncoder_sameScheduled _ _ _)

theorem assign_keys_le (p : Plan) (id : Nat) (newBlocks : List (List Nat)) (n : Int) :
    (p.assign id newBlocks n).numScheduledTokens.keys.length ≤ p.numScheduledTokens.keys.length + 1 :=
  p.numScheduledTokens.length_keys_set_le id n

theorem scheduleRunning_onlyRunning {newBlocks : List (List Nat)} (h : OnlyRunning n p)
    (hrun : s.scheduleRunning p id newBlocks t = .ok (s', p')) : OnlyRunning (n + 1) p' := by
  have hsame := scheduleRunning_plan hrun
  obtain ⟨⟨hkeys, hcap⟩, hnew, hresumed⟩ := h
  have hle := assign_keys_le { p with scheduledRunningReqs := p.scheduledRunningReqs ++ [id] } id newBlocks
    t.numNewTokens
  refine ⟨hsame.capped ⟨?_, ?_⟩, hsame.newReqs.trans hnew, hsame.resumedReqs.trans hresumed⟩
  · refine hle.trans ?_
    unfold Plan.numReqs at hkeys ⊢
    simp only [Plan.assign, List.length_append, List.length_singleton]
    omega
  · unfold Plan.numReqs at hcap ⊢
    simp only [Plan.assign, List.length_append, List.length_singleton]
    omega

/-- The running loop stops at the share of the stage. -/
theorem runningLoop_onlyRunning [DecidableEq β] (hlimits : cfg.limitsPipeline = true) {reqIndex : Nat}
    (h : OnlyRunning cfg.maxNumPrePipelineReqs p) (hrun : runningLoop cfg env fuel reqIndex s p = .ok (s', p')) :
    OnlyRunning cfg.maxNumPrePipelineReqs p' := by
  induction fuel generalizing reqIndex s p with
  | zero =>
    cases hrun
    exact h
  | succ fuel ih =>
    rw [runningLoop] at hrun
    split at hrun
    · cases hrun
      exact h
    · next id hid =>
      split at hrun
      · cases hrun
        exact h
      · split at hrun
        · cases hrun
          exact h
        · next hfull =>
          split at hrun
          · exact ih h hrun
          · obtain ⟨⟨t, s₁⟩, -, hrun⟩ := bind_eq_ok.mp hrun
            dsimp only at hrun
            split at hrun
            · exact ih h hrun
            · obtain ⟨⟨newBlocks, reqIndex₁, s₂, p₁⟩, halloc, hrun⟩ := bind_eq_ok.mp hrun
              have hlt : p.numReqs + 1 ≤ cfg.maxNumPrePipelineReqs := by
                unfold stageIsFull at hfull
                rw [hlimits, Bool.true_and, decide_eq_true_eq] at hfull
                unfold Plan.numReqs
                rw [h.newReqs, h.resumedReqs]
                simp only [List.length_nil]
                omega
              have hkept : OnlyRunning p.numReqs p₁ :=
                allocateRunning_onlyRunning ⟨⟨h.keys, le_rfl⟩, h.newReqs, h.resumedReqs⟩ halloc
              split at hrun
              · cases hrun
                exact ⟨⟨hkept.keys, hkept.cap.trans (Nat.le_of_succ_le hlt)⟩, hkept.newReqs,
                  hkept.resumedReqs⟩
              · obtain ⟨⟨s₃, p₂⟩, hschedule, hrun⟩ := bind_eq_ok.mp hrun
                have hone := scheduleRunning_onlyRunning hkept hschedule
                exact ih ⟨⟨hone.keys, hone.cap.trans hlt⟩, hone.newReqs, hone.resumedReqs⟩ hrun

/-- A waiting request that is scheduled is listed, with its tokens. -/
theorem scheduleWaiting_plan {c : ComputedTokens} (hrun : s.scheduleWaiting cfg p id c t = .ok (s', p')) :
    ∃ (p₁ : Plan) (newBlocks : List (List Nat)), p₁.numReqs = p.numReqs + 1 ∧
      p₁.numScheduledTokens = p.numScheduledTokens ∧ p₁.preemptedReqs = p.preemptedReqs ∧
      SameScheduled (p₁.assign id newBlocks t.numNewTokens) p' := by
  obtain ⟨p₁, hadd, hrun⟩ := bind_eq_ok.mp hrun
  obtain ⟨s₁, -, hrun⟩ := bind_eq_ok.mp hrun
  cases hrun
  have hlists : p₁.numReqs = p.numReqs + 1 ∧ p₁.numScheduledTokens = p.numScheduledTokens ∧
      p₁.preemptedReqs = p.preemptedReqs := by
    unfold addScheduled at hadd
    unfold Plan.numReqs
    split at hadd
    · cases hadd
      refine ⟨?_, rfl, rfl⟩
      simp only [List.length_append, List.length_singleton]
      omega
    · cases hadd
      refine ⟨?_, rfl, rfl⟩
      simp only [List.length_append, List.length_singleton]
      omega
    · cases hadd
  refine ⟨p₁, cfg.managers.map fun m => s.kv.blocksOf (m.row id), hlists.1, hlists.2.1, hlists.2.2, ?_⟩
  refine SameScheduled.trans ?_ (assignEncoder_sameScheduled _ _ _)
  split <;> exact ⟨rfl, rfl, rfl, rfl, rfl, rfl⟩

theorem WaitStep.capped (hlimits : cfg.limitsPipeline = true) {x y : Scheduler β × Plan × List Nat}
    (hstep : WaitStep cfg x y) (h : x.2.1.Capped cfg.maxNumPrePipelineReqs) :
    y.2.1.Capped cfg.maxNumPrePipelineReqs := by
  cases hstep with
  | visit => exact h
  | skip => exact h
  | load => exact h
  | @accept _ _ _ p _ id _ _ t hroom _ hschedule =>
    obtain ⟨p₂, newBlocks, hnum, htokens, -, hsame⟩ := scheduleWaiting_plan hschedule
    have hlt : p.numReqs < cfg.maxNumPrePipelineReqs := by
      unfold pipelineIsFull at hroom
      rw [hlimits, Bool.true_and, decide_eq_false_iff_not, not_le] at hroom
      exact hroom
    have hle := assign_keys_le p₂ id newBlocks t.numNewTokens
    rw [htokens] at hle
    have hkeys : p.numScheduledTokens.keys.length ≤ p.numReqs := h.keys
    have hassign : (p₂.assign id newBlocks t.numNewTokens).numReqs = p₂.numReqs := rfl
    refine hsame.capped ⟨?_, ?_⟩
    · rw [hassign]
      omega
    · rw [hassign]
      omega

theorem recordLoras_sameScheduled (hrun : recordLoras cfg s p = .ok p') : SameScheduled p p' := by
  unfold recordLoras at hrun
  split at hrun
  · cases hrun
    exact ⟨rfl, rfl, rfl, rfl, rfl, rfl⟩
  · obtain ⟨_, -, hrun⟩ := bind_eq_ok.mp hrun
    cases hrun
    exact ⟨rfl, rfl, rfl, rfl, rfl, rfl⟩

/-- The waiting loop stops where the pipeline is full. -/
theorem scheduleWaitingReqs_capped [DecidableEq β] (hlimits : cfg.limitsPipeline = true)
    (h : p.Capped cfg.maxNumPrePipelineReqs) (hrun : s.scheduleWaitingReqs cfg env p = .ok (s', p')) :
    p'.Capped cfg.maxNumPrePipelineReqs := by
  obtain ⟨s₁, skipped, hsteps, -, -⟩ := scheduleWaitingReqs_steps hrun
  exact kept_by_steps (I := fun x : Scheduler β × Plan × List Nat => x.2.1.Capped cfg.maxNumPrePipelineReqs)
    (fun hstep => hstep.capped hlimits) hsteps h

theorem makePlan_capped [DecidableEq β] (hlimits : cfg.limitsPipeline = true)
    (hrun : s.makePlan cfg env = .ok (s', p)) : p.Capped cfg.maxNumPrePipelineReqs := by
  obtain ⟨⟨s₁, p₁⟩, hrunning, hrun⟩ := bind_eq_ok.mp hrun
  obtain ⟨p₂, hloras, hrun⟩ := bind_eq_ok.mp hrun
  have hinitial : OnlyRunning cfg.maxNumPrePipelineReqs (s.initialPlan cfg) :=
    ⟨⟨le_rfl, Nat.zero_le _⟩, rfl, rfl⟩
  have hone := runningLoop_onlyRunning hlimits hinitial hrunning
  exact scheduleWaitingReqs_capped hlimits ((recordLoras_sameScheduled hloras).capped hone.toCapped) hrun

/-- The output has the requests and the tokens of the plan. -/
theorem makeOutput_plan {n : Int} {output : SchedulerOutput} (hrun : makeOutput cfg s p n = .ok (output, s')) :
    output.numScheduledTokens = p.numScheduledTokens ∧ output.preemptedReqIds = p.preemptedReqs.dedup ∧
      output.scheduledNewReqs.length + output.scheduledCachedReqs.reqIds.length = p.numReqs ∧
      s'.request = s.request ∧ s'.running = s.running ∧ s'.pauseState = s.pauseState := by
  obtain ⟨newBlockIds, hblocks, hrun⟩ := bind_eq_ok.mp hrun
  obtain ⟨cached, hcached, hrun⟩ := bind_eq_ok.mp hrun
  obtain ⟨_, -, hcached⟩ := bind_eq_ok.mp hcached
  obtain ⟨_, -, hcached⟩ := bind_eq_ok.mp hcached
  cases hcached
  cases hrun
  refine ⟨rfl, rfl, ?_, rfl, rfl, rfl⟩
  have hlength := (mapM_eq_ok.mp hblocks).length_eq
  rw [List.length_zip, ← hlength, min_self, List.length_append]
  unfold Plan.numReqs
  split
  · rw [List.length_append, List.length_nil]
    omega
  · omega

/-- A step has at most its share of `max_num_seqs` requests. -/
theorem schedule_capped [DecidableEq β] (hlimits : cfg.limitsPipeline = true) {output : SchedulerOutput}
    (hrun : s.schedule cfg env = .ok (output, s')) :
    output.numScheduledTokens.keys.length ≤ cfg.maxNumPrePipelineReqs ∧
      output.scheduledNewReqs.length + output.scheduledCachedReqs.reqIds.length ≤ cfg.maxNumPrePipelineReqs := by
  obtain ⟨⟨s₁, p⟩, hplan, hrun⟩ := bind_eq_ok.mp hrun
  obtain ⟨n, -, hrun⟩ := bind_eq_ok.mp hrun
  obtain ⟨⟨output', s₂⟩, houtput, hrun⟩ := bind_eq_ok.mp hrun
  cases hrun
  obtain ⟨htokens, -, hreqs, -⟩ := makeOutput_plan houtput
  have hcapped := makePlan_capped hlimits hplan
  rw [htokens, hreqs]
  exact ⟨hcapped.keys.trans hcapped.cap, hcapped.cap⟩

end Scheduler
end Core
end Yuan
