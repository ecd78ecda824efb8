import Yuan.Core.ScheduleSteps
import Yuan.Core.SchedulerRuns
import Yuan.Lib.Parts

/-!
# The order of the waiting queue

Under FCFS, a step preempts requests from the end of the running list and puts each in front of the waiting queue.
What it admits leaves the queue, and all others stay in their order: the skipped ones are collected in reverse and
put back in reverse.
-/

namespace Yuan.Core

theorem RequestQueue.prependRequests_fcfs {lt : Nat → Nat → Bool} (q requests : List Nat) :
    prependRequests .fcfs lt q requests = requests.reverse ++ q := by
  unfold prependRequests iter
  induction requests generalizing q with
  | nil => rfl
  | cons request requests ih =>
    rw [List.foldl_cons, ih, List.reverse_cons, List.append_assoc]
    rfl

namespace Scheduler

variable {β : Type} [DecidableEq β] {cfg : SchedulerConfig β} {env : ScheduleEnv} {s s' s'' : Scheduler β}
variable {p p' : Plan} {id : Nat} {x y : Scheduler β × Plan}

/-! ## What leaves the queues alone -/

/-- Both queues are as before. -/
structure KeepsQueues (s s' : Scheduler β) : Prop where
  running : s'.running = s.running
  waiting : s'.waiting = s.waiting

section

omit [DecidableEq β]

theorem KeepsQueues.refl (s : Scheduler β) : KeepsQueues s s := ⟨rfl, rfl⟩

theorem KeepsQueues.trans (h : KeepsQueues s s') (h' : KeepsQueues s' s'') : KeepsQueues s s'' :=
  ⟨h'.running.trans h.running, h'.waiting.trans h.waiting⟩

theorem Untouched.keepsQueues (h : Untouched s s') : KeepsQueues s s' := ⟨h.running, h.waiting⟩

theorem CountSteps.keepsQueues (h : CountSteps s s') : KeepsQueues s s' := by
  apply holds_of_steps KeepsQueues.refl KeepsQueues.trans _ h
  rintro s _ (h | ⟨id, _, _, _, _, _, rfl⟩)
  · exact h.keepsQueues
  · exact ⟨rfl, rfl⟩

theorem VisitStep.keepsQueues (hstep : VisitStep id s s') : KeepsQueues s s' := by
  cases hstep with
  | untouched h => exact h.keepsQueues
  | loaded => exact ⟨rfl, rfl⟩
  | unblocked => exact ⟨rfl, rfl⟩
  | matched => exact ⟨rfl, rfl⟩

end

/-! ## Preempting -/

/-- From the end of the running list, requests have gone to the front of the waiting queue. -/
structure Preempts (preempted : List Nat) (s s' : Scheduler β) (p p' : Plan) : Prop where
  running : s.running = s'.running ++ preempted
  waiting : s'.waiting = preempted ++ s.waiting
  preemptedReqs : p'.preemptedReqs = p.preemptedReqs ++ preempted.reverse
  newReqs : p'.scheduledNewReqs = p.scheduledNewReqs
  resumedReqs : p'.scheduledResumedReqs = p.scheduledResumedReqs

section

omit [DecidableEq β]

theorem KeepsQueues.preempts (h : KeepsQueues s s') (p : Plan) : Preempts [] s s' p p where
  running := by rw [h.running, List.append_nil]
  waiting := h.waiting
  preemptedReqs := (List.append_nil _).symm
  newReqs := rfl
  resumedReqs := rfl

theorem Preempts.trans {l l' : List Nat} {p'' : Plan} (h : Preempts l s s' p p') (h' : Preempts l' s' s'' p' p'') :
    Preempts (l' ++ l) s s'' p p'' where
  running := by rw [h.running, h'.running, List.append_assoc]
  waiting := by rw [h'.waiting, h.waiting, List.append_assoc]
  preemptedReqs := by rw [h'.preemptedReqs, h.preemptedReqs, List.append_assoc, List.reverse_append]
  newReqs := h'.newReqs.trans h.newReqs
  resumedReqs := h'.resumedReqs.trans h.resumedReqs

theorem preemptRequest_fcfs (hpolicy : cfg.policy = .fcfs) (hrun : s.preemptRequest cfg id = .ok s') :
    s'.running = s.running ∧ s'.waiting = id :: s.waiting := by
  obtain ⟨_, -, hrun⟩ := bind_eq_ok.mp hrun
  obtain ⟨kv, -, hrun⟩ := bind_eq_ok.mp hrun
  cases hrun
  unfold prependWaiting RequestQueue.prependRequest
  rw [hpolicy]
  exact ⟨rfl, rfl⟩

/-- The last running request is taken. -/
theorem popPreempted_fcfs (hpolicy : cfg.policy = .fcfs) {reqIndex reqIndex' : Nat}
    (hrun : s.popPreempted cfg p reqIndex = .ok (id, reqIndex', s', p')) :
    s.running = s'.running ++ [id] ∧ s'.waiting = s.waiting ∧ p = p' := by
  rcases popPreempted_cases hrun with ⟨hpriority, -⟩ | ⟨-, hlast, rfl, rfl⟩
  · rw [hpolicy] at hpriority
    cases hpriority
  · obtain ⟨init, hinit⟩ := List.getLast?_eq_some_iff.mp hlast
    refine ⟨?_, rfl, rfl⟩
    rw [hinit, List.dropLast_concat]

end

theorem AllocateStep.preempts (hpolicy : cfg.policy = .fcfs) (hstep : AllocateStep cfg x y) :
    ∃ preempted, Preempts preempted x.1 y.1 x.2 y.2 := by
  cases hstep with
  | slots halloc => exact ⟨[], (allocateSlots_untouched halloc).keepsQueues.preempts _⟩
  | preempt hpop hpreempt =>
    obtain ⟨hlast, hwaiting, rfl⟩ := popPreempted_fcfs hpolicy hpop
    obtain ⟨hrunning', hwaiting'⟩ := preemptRequest_fcfs hpolicy hpreempt
    refine ⟨[_], ?_, ?_, rfl, rfl, rfl⟩
    · rw [hrunning', ← hlast]
    · rw [hwaiting', hwaiting]
      rfl

/-- Plans that name the same preempted, new and resumed requests. -/
structure SameReqs (p p' : Plan) : Prop where
  preemptedReqs : p'.preemptedReqs = p.preemptedReqs
  newReqs : p'.scheduledNewReqs = p.scheduledNewReqs
  resumedReqs : p'.scheduledResumedReqs = p.scheduledResumedReqs

theorem assignEncoder_sameReqs (p : Plan) (id : Nat) (t : EncoderPlan) : SameReqs p (p.assignEncoder id t) := by
  unfold Plan.assignEncoder
  split <;> exact ⟨rfl, rfl, rfl⟩

omit [DecidableEq β] in
theorem planSpecTokens_sameReqs (p : Plan) (r : Request (List β)) (id : Nat) (n : Int) :
    SameReqs p (planSpecTokens p r id n) := by
  unfold planSpecTokens
  dsimp only
  split <;> exact ⟨rfl, rfl, rfl⟩

omit [DecidableEq β] in
theorem scheduleRunning_preempts {newBlocks : List (List Nat)} {t : EncoderPlan}
    (hrun : s.scheduleRunning p id newBlocks t = .ok (s', p')) : Preempts [] s s' p p' := by
  obtain ⟨s₁, hencoder, hrun⟩ := bind_eq_ok.mp hrun
  cases hrun
  have hkeeps := (allocateEncoder_untouched hencoder).keepsQueues
  have hspec := planSpecTokens_sameReqs
    ({ p with scheduledRunningReqs := p.scheduledRunningReqs ++ [id] }.assign id newBlocks t.numNewTokens)
    (s.request id) id t.numNewTokens
  have hassign := assignEncoder_sameReqs (planSpecTokens
    ({ p with scheduledRunningReqs := p.scheduledRunningReqs ++ [id] }.assign id newBlocks t.numNewTokens)
    (s.request id) id t.numNewTokens) id t
  refine ⟨?_, hkeeps.waiting, ?_, hassign.newReqs.trans hspec.newReqs, hassign.resumedReqs.trans hspec.resumedReqs⟩
  · rw [hkeeps.running, List.append_nil]
    rfl
  · rw [hassign.preemptedReqs, hspec.preemptedReqs]
    exact (List.append_nil _).symm

theorem RunStep.preempts (hpolicy : cfg.policy = .fcfs) (hstep : RunStep cfg env x y) :
    ∃ preempted, Preempts preempted x.1 y.1 x.2 y.2 := by
  cases hstep with
  | encode hplan => exact ⟨[], (planEncoder_untouched hplan).keepsQueues.preempts _⟩
  | allocate hstep => exact hstep.preempts hpolicy
  | schedule hschedule => exact ⟨[], scheduleRunning_preempts hschedule⟩

theorem RunStep.steps_preempts (hpolicy : cfg.policy = .fcfs) (hsteps : Relation.ReflTransGen (RunStep cfg env) x y) :
    ∃ preempted, Preempts preempted x.1 y.1 x.2 y.2 := by
  induction hsteps with
  | refl => exact ⟨[], (KeepsQueues.refl _).preempts _⟩
  | tail _ hstep ih =>
    obtain ⟨l, hl⟩ := ih
    obtain ⟨l', hl'⟩ := hstep.preempts hpolicy
    exact ⟨l' ++ l, hl.trans hl'⟩

omit [DecidableEq β] in
theorem recordLoras_sameReqs (hrun : recordLoras cfg s p = .ok p') : SameReqs p p' := by
  unfold recordLoras at hrun
  split at hrun
  · cases hrun
    exact ⟨rfl, rfl, rfl⟩
  · obtain ⟨_, -, hrun⟩ := bind_eq_ok.mp hrun
    cases hrun
    exact ⟨rfl, rfl, rfl⟩

/-! ## Admitting -/

/-- Requests have left the front of the waiting queue: those that were taken run, the others were skipped. -/
structure Admits (visited taken skipped : List Nat) (s s' : Scheduler β) (p p' : Plan) : Prop where
  waiting : s.waiting = visited ++ s'.waiting
  splits : Splits visited taken skipped
  running : s'.running = s.running ++ taken
  preemptedReqs : p'.preemptedReqs = p.preemptedReqs
  admitted : (p'.scheduledNewReqs ++ p'.scheduledResumedReqs).Perm
    (p.scheduledNewReqs ++ p.scheduledResumedReqs ++ taken)

section

omit [DecidableEq β]

theorem KeepsQueues.admits (h : KeepsQueues s s') (p : Plan) : Admits [] [] [] s s' p p where
  waiting := h.waiting.symm
  splits := .nil
  running := by rw [h.running, List.append_nil]
  preemptedReqs := rfl
  admitted := by rw [List.append_nil]

theorem Admits.trans {visited taken skipped visited' taken' skipped' : List Nat} {p'' : Plan}
    (h : Admits visited taken skipped s s' p p') (h' : Admits visited' taken' skipped' s' s'' p' p'') :
    Admits (visited ++ visited') (taken ++ taken') (skipped ++ skipped') s s'' p p'' where
  waiting := by rw [h.waiting, h'.waiting, List.append_assoc]
  splits := h.splits.append h'.splits
  running := by rw [h'.running, h.running, List.append_assoc]
  preemptedReqs := h'.preemptedReqs.trans h.preemptedReqs
  admitted := by
    rw [← List.append_assoc]
    exact h'.admitted.trans (h.admitted.append_right taken')

theorem popWaiting_fcfs (hpolicy : cfg.policy = .fcfs) (hrun : s.popWaiting cfg = .ok (id, s')) :
    s.waiting = id :: s'.waiting ∧ s'.running = s.running := by
  obtain ⟨⟨id', waiting⟩, hpop, hrun⟩ := bind_eq_ok.mp hrun
  cases hrun
  unfold RequestQueue.popRequest at hpop
  rw [hpolicy] at hpop
  dsimp only at hpop
  split at hpop
  · next first rest hqueue =>
    cases hpop
    exact ⟨hqueue, rfl⟩
  · cases hpop

theorem skipWaiting_admits (hpolicy : cfg.policy = .fcfs) {skipped skipped' : List Nat} (p : Plan)
    (hrun : s.skipWaiting cfg skipped = .ok (s', skipped')) :
    ∃ id, skipped' = id :: skipped ∧ Admits [id] [] [id] s s' p p := by
  obtain ⟨⟨id, s₁⟩, hpop, hrun⟩ := bind_eq_ok.mp hrun
  cases hrun
  obtain ⟨hwaiting, hrunning⟩ := popWaiting_fcfs hpolicy hpop
  rw [hpolicy]
  refine ⟨id, rfl, hwaiting, .leave id .nil, ?_, rfl, ?_⟩
  · rw [hrunning, List.append_nil]
  · rw [List.append_nil]

/-- A request that is scheduled goes to the end of the running list. -/
theorem scheduleWaiting_admits {c : ComputedTokens} {t : EncoderPlan}
    (hrun : s.scheduleWaiting cfg p id c t = .ok (s', p')) : s'.waiting = s.waiting ∧
      s'.running = s.running ++ [id] ∧ p'.preemptedReqs = p.preemptedReqs ∧
      (p'.scheduledNewReqs ++ p'.scheduledResumedReqs).Perm (p.scheduledNewReqs ++ p.scheduledResumedReqs ++ [id]) := by
  obtain ⟨p₁, hadd, hrun⟩ := bind_eq_ok.mp hrun
  obtain ⟨s₁, hencoder, hrun⟩ := bind_eq_ok.mp hrun
  have hkeeps := (allocateEncoder_untouched hencoder).keepsQueues
  cases hrun
  have hlists : p₁.preemptedReqs = p.preemptedReqs ∧
      (p₁.scheduledNewReqs ++ p₁.scheduledResumedReqs).Perm
        (p.scheduledNewReqs ++ p.scheduledResumedReqs ++ [id]) := by
    unfold addScheduled at hadd
    split at hadd
    · cases hadd
      refine ⟨rfl, ?_⟩
      rw [List.append_assoc, List.append_assoc]
      exact List.perm_append_comm.append_left _
    · cases hadd
      refine ⟨rfl, ?_⟩
      rw [List.append_assoc]
    · cases hadd
  refine ⟨hkeeps.waiting, hkeeps.running, ?_⟩
  have hsame : ∀ q : Plan, SameReqs p₁ q → (q.assignEncoder id t).preemptedReqs = p.preemptedReqs ∧
      ((q.assignEncoder id t).scheduledNewReqs ++ (q.assignEncoder id t).scheduledResumedReqs).Perm
        (p.scheduledNewReqs ++ p.scheduledResumedReqs ++ [id]) := by
    intro q hq
    have hassign := assignEncoder_sameReqs q id t
    rw [hassign.preemptedReqs, hassign.newReqs, hassign.resumedReqs, hq.preemptedReqs, hq.newReqs, hq.resumedReqs]
    exact hlists
  apply hsame
  split <;> exact ⟨rfl, rfl, rfl⟩

theorem WaitStep.admits (hpolicy : cfg.policy = .fcfs) {x y : Scheduler β × Plan × List Nat}
    (hstep : WaitStep cfg x y) :
    ∃ visited taken left, Admits visited taken left x.1 y.1 x.2.1 y.2.1 ∧ y.2.2 = left.reverse ++ x.2.2 := by
  cases hstep with
  | visit hvisit => exact ⟨[], [], [], hvisit.keepsQueues.admits _, rfl⟩
  | @skip s s' p skipped skipped' hskip =>
    obtain ⟨id, rfl, hone⟩ := skipWaiting_admits hpolicy p hskip
    exact ⟨[id], [], [id], hone, rfl⟩
  | @load s s' p id skipped skipped' _ _ _ hskip =>
    obtain ⟨id', rfl, hone⟩ := skipWaiting_admits hpolicy p hskip
    have hmodify : KeepsQueues s' (s'.modify id fun r => { r with status := .waitingForRemoteKvs }) := ⟨rfl, rfl⟩
    exact ⟨[id'], [], [id'], hone.trans (hmodify.admits p), rfl⟩
  | @accept s s₁ s' p p' id skipped c t _ hpop hschedule =>
    obtain ⟨hwaiting, hrunning⟩ := popWaiting_fcfs hpolicy hpop
    obtain ⟨hwaiting', hrunning', hpreempted, hadmitted⟩ := scheduleWaiting_admits hschedule
    refine ⟨[id], [id], [], ⟨?_, .take id .nil, ?_, hpreempted, hadmitted⟩, rfl⟩
    · rw [hwaiting', hwaiting]
      rfl
    · rw [hrunning', hrunning]

theorem WaitStep.steps_admits (hpolicy : cfg.policy = .fcfs) {x y : Scheduler β × Plan × List Nat}
    (hsteps : Relation.ReflTransGen (WaitStep cfg) x y) :
    ∃ visited taken left, Admits visited taken left x.1 y.1 x.2.1 y.2.1 ∧ y.2.2 = left.reverse ++ x.2.2 := by
  induction hsteps with
  | refl => exact ⟨[], [], [], (KeepsQueues.refl _).admits _, rfl⟩
  | tail _ hstep ih =>
    obtain ⟨visited, taken, left, h, hleft⟩ := ih
    obtain ⟨visited', taken', left', h', hleft'⟩ := hstep.admits hpolicy
    refine ⟨_, _, _, h.trans h', ?_⟩
    rw [hleft', hleft, List.reverse_append, List.append_assoc]

end

/-- The skipped requests are back in front of those that were not visited. -/
theorem scheduleWaitingReqs_splits (hpolicy : cfg.policy = .fcfs)
    (hrun : s.scheduleWaitingReqs cfg env p = .ok (s', p')) :
    ∃ admitted, Splits s.waiting admitted s'.waiting ∧ s'.running = s.running ++ admitted ∧
      p'.preemptedReqs = p.preemptedReqs ∧ (p'.scheduledNewReqs ++ p'.scheduledResumedReqs).Perm
        (p.scheduledNewReqs ++ p.scheduledResumedReqs ++ admitted) ∧ (p.preemptedReqs ≠ [] → admitted = []) := by
  obtain ⟨s₁, skipped, hsteps, rfl, hnone⟩ := scheduleWaitingReqs_steps hrun
  obtain ⟨visited, taken, left, hadmits, hskipped⟩ := WaitStep.steps_admits hpolicy hsteps
  dsimp only at hadmits hskipped
  rw [List.append_nil] at hskipped
  refine ⟨taken, ?_, hadmits.running, hadmits.preemptedReqs, hadmits.admitted, fun h => ?_⟩
  · have happend := hadmits.splits.append (Splits.all_left s₁.waiting)
    rw [List.append_nil] at happend
    rw [hpolicy, RequestQueue.prependRequests_fcfs, hskipped, List.reverse_reverse, hadmits.waiting]
    exact happend
  · have hsame := congrArg Scheduler.running (hnone h)
    exact List.append_right_eq_self.mp (hadmits.running.symm.trans hsame)

/-! ## The step -/

omit [DecidableEq β] in
/-- The output names the requests of the plan. -/
theorem makeOutput_reqs {n : Int} {output : SchedulerOutput} (hrun : makeOutput cfg s p n = .ok (output, s')) :
    KeepsQueues s s' ∧ output.preemptedReqIds = p.preemptedReqs.dedup ∧
      output.scheduledNewReqs.map Prod.fst ++ output.scheduledCachedReqs.resumedReqIds =
        p.scheduledNewReqs ++ p.scheduledResumedReqs := by
  obtain ⟨newBlockIds, hblocks, hrun⟩ := bind_eq_ok.mp hrun
  obtain ⟨cached, hcached, hrun⟩ := bind_eq_ok.mp hrun
  obtain ⟨_, -, hcached⟩ := bind_eq_ok.mp hcached
  obtain ⟨_, -, hcached⟩ := bind_eq_ok.mp hcached
  cases hcached
  cases hrun
  refine ⟨⟨rfl, rfl⟩, rfl, ?_⟩
  have hlength := (mapM_eq_ok.mp hblocks).length_eq
  dsimp only
  rw [List.map_fst_zip hlength.le]
  split
  · rw [List.append_nil]
  · rfl

/-- Under FCFS a step puts the requests that it preempts, which are the last ones of the running list, in front of
the waiting queue in the order in which they ran. From the queue, only the admitted ones are taken out. -/
theorem schedule_waiting (cfg : SchedulerConfig β) (env : ScheduleEnv) (s : Scheduler β) {output : SchedulerOutput}
    (hpolicy : cfg.policy = .fcfs) (hrun : s.schedule cfg env = .ok (output, s')) :
    ∃ kept preempted admitted left, s.running = kept ++ preempted ∧ s'.running = kept ++ admitted ∧
      Splits s.waiting admitted left ∧ s'.waiting = preempted ++ left ∧
      (∀ id, id ∈ output.preemptedReqIds ↔ id ∈ preempted) ∧
      (output.scheduledNewReqs.map Prod.fst ++ output.scheduledCachedReqs.resumedReqIds).Perm admitted := by
  obtain ⟨s₃, s₁, s₂, p₂, p₃, p₁, n, hloop, hloras, hplan, -, houtput, rfl⟩ := schedule_parts hrun
  obtain ⟨preempted, hpreempts⟩ := RunStep.steps_preempts hpolicy (runningLoop_steps hloop)
  have hsame := recordLoras_sameReqs hloras
  obtain ⟨admitted, hsplits, hrunning, hpreempted, hadmitted, hnone⟩ := scheduleWaitingReqs_splits hpolicy hplan
  obtain ⟨hkeeps, hids, hreqs⟩ := makeOutput_reqs houtput
  have hkeeps' := hkeeps.trans (updateAfterSchedule_steps cfg s₂ output).keepsQueues
  have hlist : p₃.preemptedReqs = preempted.reverse := by
    rw [hsame.preemptedReqs, hpreempts.preemptedReqs]
    rfl
  have hfinal : output.preemptedReqIds = preempted.reverse.dedup := by rw [hids, hpreempted, hlist]
  have hperm : (output.scheduledNewReqs.map Prod.fst ++ output.scheduledCachedReqs.resumedReqIds).Perm admitted := by
    rw [hreqs]
    rw [hsame.newReqs, hsame.resumedReqs, hpreempts.newReqs, hpreempts.resumedReqs] at hadmitted
    exact hadmitted
  have hmem : ∀ id, id ∈ output.preemptedReqIds ↔ id ∈ preempted := fun id => by
    rw [hfinal, List.mem_dedup, List.mem_reverse]
  rw [hpreempts.waiting] at hsplits
  rcases List.eq_nil_or_concat preempted with rfl | ⟨init, last, rfl⟩
  · refine ⟨s₃.running, [], admitted, s₁.waiting, hpreempts.running, ?_, hsplits, ?_, hmem, hperm⟩
    · rw [hkeeps'.running, hrunning]
    · exact hkeeps'.waiting
  · -- nothing is admitted in a step that preempts
    have hnil : admitted = [] := by
      apply hnone
      rw [hlist]
      simp
    subst hnil
    refine ⟨s₃.running, init.concat last, [], s.waiting, hpreempts.running, ?_, Splits.all_left _, ?_, hmem, hperm⟩
    · rw [hkeeps'.running, hrunning]
    · rw [hkeeps'.waiting]
      have hall := hsplits.left_of_nil
      rw [hall]

/-- Only one LoRA at a time. -/
def oneLora : SchedulerConfig Nat where
  maxNumRunningReqs := 4
  maxNumScheduledTokens := 8
  maxLoras := some 1
  kvCacheManager := KVCacheManager.windowOfTwo
  coordinator := .unitary false
  hashes := ⟨[], fun _ => [], fun _ => []⟩

/-- Three waiting requests, the first two with different LoRAs. -/
def threeWaiting : Except PyError (Scheduler Nat) := do
  let (_, kv) ← PoolRuns.start 4 true []
  let s := (Scheduler.init kv 0).addNewRequest oneLora
    { KVCacheManager.countingRequest 0 1 0 with loraRequest := some ⟨"a", 1⟩ }
  let s := s.addNewRequest oneLora { KVCacheManager.countingRequest 1 1 0 with loraRequest := some ⟨"b", 2⟩ }
  return s.addNewRequest oneLora (KVCacheManager.countingRequest 2 1 0)

/-- The second of the three requests is skipped. -/
theorem schedule_waiting_three :
    ∃ s output s', threeWaiting = .ok s ∧ s.schedule oneLora {} = .ok (output, s') ∧
      s'.running = [0, 2] ∧ s'.waiting = [1] ∧ ∃ kept preempted admitted left,
        s.running = kept ++ preempted ∧ s'.running = kept ++ admitted ∧
        Splits s.waiting admitted left ∧ s'.waiting = preempted ++ left ∧
        (∀ id, id ∈ output.preemptedReqIds ↔ id ∈ preempted) ∧
        (output.scheduledNewReqs.map Prod.fst ++ output.scheduledCachedReqs.resumedReqIds).Perm admitted :=
  ⟨_, _, _, rfl, rfl, rfl, rfl, schedule_waiting oneLora {} _ rfl rfl⟩

end Scheduler
end Yuan.Core
