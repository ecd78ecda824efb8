import Yuan.Core.SessionRuns

/-!
# The queues in runs of the scheduler

`schedule` takes requests from one queue to the other, one at a time, and what it skips is put back. An
output takes the requests that stop out of their queue in one batch behind the loop, while a session
that goes on is added to the waiting queue inside of the loop. A session that was preempted before its
output came is in the batch for the waiting queue as well, and so it is lost.
-/

namespace Yuan.Core

/-- The lists of stopped requests with one more. -/
def Stopped.add (c : Stopped) (id : Nat) (statusBeforeStop : RequestStatus) : Stopped :=
  if statusBeforeStop = .running then { c with stoppedRunningReqs := c.stoppedRunningReqs ++ [id] }
  else { c with stoppedPreemptedReqs := c.stoppedPreemptedReqs ++ [id] }

namespace Scheduler

variable {β : Type} {cfg : SchedulerConfig β} {env : ScheduleEnv} {s s₁ s' : Scheduler β} {p p' : Plan} {id : Nat}
  {output : SchedulerOutput} {out : ModelRunnerOutput} {c : Stopped}

/-! ## Running requests -/

theorem Untouched.samePlaces (h : Untouched s s') : SamePlaces s s' :=
  ⟨h.requests, h.running, h.waiting, h.num, fun x => by rw [h.request],
    fun x => by rw [h.request]; exact .refl _⟩

theorem CountSteps.samePlaces (h : CountSteps s s') : SamePlaces s s' := by
  apply holds_of_steps SamePlaces.refl SamePlaces.trans _ h
  rintro s _ (h | ⟨id, _, _, _, _, _, rfl⟩)
  · exact h.samePlaces
  · exact samePlaces_modify s id rfl ⟨rfl, rfl, rfl⟩

theorem lowestPriority_mem (h : s.lowestPriority = some id) : id ∈ s.running := by
  unfold lowestPriority at h
  split at h
  · cases h
  · next first rest hrunning =>
    have hfold : ∀ (l : List Nat) (best : Nat), best ∈ s.running → (∀ x ∈ l, x ∈ s.running) →
        l.foldl (fun best x => if yieldsTo (s.request best) (s.request x) then x else best) best ∈ s.running := by
      intro l
      induction l with
      | nil => exact fun best hbest _ => hbest
      | cons x l ih =>
        intro best hbest hl
        rw [List.foldl_cons]
        refine ih _ ?_ fun y hy => hl y (List.mem_cons_of_mem _ hy)
        split
        · exact hl x List.mem_cons_self
        · exact hbest
    cases h
    exact hfold rest first (by simp [hrunning]) fun x hx => by simp [hrunning, hx]

/-- A preempted request goes from the running list to the waiting queue. -/
theorem Partitioned.preempt (h : s.Partitioned) (hperm : (id :: s₁.running).Perm s.running)
    (hs : s₁ = { s with running := s₁.running }) (hrun : s₁.preemptRequest cfg id = .ok s') : s'.Partitioned := by
  have hpart : Partition s₁ (id :: s₁.running) s₁.waiting s₁.numWaitingForStreamingInput := by
    rw [hs]
    exact (h.perm hperm (.refl _)).congr rfl (fun _ => rfl) fun _ => .refl _
  have hpart' := Partition.preemptRequest hpart hrun
  obtain ⟨-, -, -, hr, -, hn⟩ := preemptRequest_spec hrun
  unfold Partitioned
  rw [hr, hn]
  exact hpart'

theorem AllocateStep.partitioned [DecidableEq β] {x y : Scheduler β × Plan} (hstep : AllocateStep cfg x y)
    (h : x.1.Partitioned) : y.1.Partitioned := by
  cases hstep with
  | slots halloc => exact h.samePlaces (allocateSlots_untouched halloc).samePlaces
  | preempt hpop hpreempt =>
    rcases popPreempted_cases hpop with ⟨-, hlowest, rfl, -⟩ | ⟨-, hlast, rfl, -⟩
    · exact h.preempt (List.perm_cons_erase (lowestPriority_mem hlowest)).symm rfl hpreempt
    · exact h.preempt (perm_dropLast_cons hlast) rfl hpreempt

theorem RunStep.partitioned [DecidableEq β] {x y : Scheduler β × Plan} (hstep : RunStep cfg env x y)
    (h : x.1.Partitioned) : y.1.Partitioned := by
  cases hstep with
  | encode hplan => exact h.samePlaces (planEncoder_untouched hplan).samePlaces
  | allocate hstep => exact hstep.partitioned h
  | schedule hschedule => exact h.samePlaces (scheduleRunning_steps hschedule).samePlaces

/-! ## Waiting requests -/

theorem VisitStep.samePlaces (hstep : VisitStep id s s') : SamePlaces s s' := by
  cases hstep with
  | untouched h => exact h.samePlaces
  | loaded => exact samePlaces_modify s id rfl ⟨rfl, rfl, rfl⟩
  | unblocked status hstatus hnew =>
    apply samePlaces_modify s id _ ⟨rfl, rfl, rfl⟩
    rcases hstatus with hstatus | hstatus <;> rcases hnew with rfl | rfl <;> rw [hstatus] <;> rfl
  | matched => exact samePlaces_modify s id rfl ⟨rfl, rfl, rfl⟩

/-- In the loop over the waiting requests, the skipped ones are a part of the waiting queue. -/
def WaitingPartitioned (x : Scheduler β × Plan × List Nat) : Prop :=
  Partition x.1 x.1.running (x.2.2 ++ x.1.waiting) x.1.numWaitingForStreamingInput

theorem popWaiting_spec (hrun : s.popWaiting cfg = .ok (id, s')) :
    (id :: s'.waiting).Perm s.waiting ∧ s' = { s with waiting := s'.waiting } := by
  obtain ⟨⟨id', waiting⟩, hpop, hrun⟩ := bind_eq_ok.mp hrun
  cases hrun
  exact ⟨RequestQueue.popRequest_perm hpop, rfl⟩

theorem WaitingPartitioned.skip {skipped skipped' : List Nat} (h : WaitingPartitioned (s, p, skipped))
    (hrun : s.skipWaiting cfg skipped = .ok (s', skipped')) : WaitingPartitioned (s', p, skipped') := by
  obtain ⟨⟨id, s₁⟩, hpop, hrun⟩ := bind_eq_ok.mp hrun
  obtain ⟨rfl, rfl⟩ := ok_pair hrun
  obtain ⟨hperm, hs⟩ := popWaiting_spec hpop
  have hall : (RequestQueue.prependRequest cfg.policy s₁.requestLt skipped id ++ s₁.waiting).Perm
      (skipped ++ s.waiting) :=
    ((RequestQueue.prependRequest_perm id).append_right _).trans
      (List.perm_middle.symm.trans (hperm.append_left _))
  have hpart := Partition.perm h (.refl _) hall
  rw [hs] at hpart ⊢
  exact hpart.congr rfl (fun _ => rfl) fun _ => .refl _

/-- A waiting request that is scheduled runs. -/
theorem WaitingPartitioned.accept {skipped : List Nat} {c : ComputedTokens} {t : EncoderPlan}
    (h : WaitingPartitioned (s, p, skipped)) (hpop : s.popWaiting cfg = .ok (id, s₁))
    (hrun : s₁.scheduleWaiting cfg p id c t = .ok (s', p')) : WaitingPartitioned (s', p', skipped) := by
  obtain ⟨hperm, hs⟩ := popWaiting_spec hpop
  obtain ⟨p₁, hadd, hrun⟩ := bind_eq_ok.mp hrun
  obtain ⟨s₂, hencoder, hrun⟩ := bind_eq_ok.mp hrun
  cases hrun
  have hencoded := (allocateEncoder_untouched hencoder).samePlaces
  have hpart : Partition s₁ s₁.running (id :: (skipped ++ s₁.waiting)) s₁.numWaitingForStreamingInput := by
    have hall : (id :: (skipped ++ s₁.waiting)).Perm (skipped ++ s.waiting) :=
      List.perm_middle.symm.trans (hperm.append_left _)
    have hpart := Partition.perm h (.refl _) hall
    rw [hs] at hpart ⊢
    exact hpart.congr rfl (fun _ => rfl) fun _ => .refl _
  have hstatus : (s₁.request id).status ≠ .waitingForStreamingReq := by
    intro hstatus
    unfold addScheduled at hadd
    rw [hstatus] at hadd
    cases hadd
  unfold WaitingPartitioned
  rw [hencoded.running, hencoded.waiting, hencoded.num]
  refine Partition.samePlaces ?_ hencoded
  exact hpart.toRunning ⟨rfl, fun x hx => modify_request_of_ne _ hx _⟩ hstatus (by rw [modify_request_self])

theorem WaitStep.partitioned {x y : Scheduler β × Plan × List Nat} (hstep : WaitStep cfg x y)
    (h : WaitingPartitioned x) : WaitingPartitioned y := by
  cases hstep with
  | visit hvisit =>
    have hsame := hvisit.samePlaces
    unfold WaitingPartitioned
    rw [hsame.running, hsame.waiting, hsame.num]
    exact Partition.samePlaces h hsame
  | skip hskip => exact h.skip hskip
  | @load s s' p id skipped skipped' hmem hstatus _ hskip =>
    -- a request that loads stays among the waiting ones, under another status
    have hplace : (s.request id).status.place = .queue := by
      obtain ⟨-, hfin, hrun⟩ := (h.mem_waiting id).mp (List.mem_append_right _ hmem)
      unfold Request.isFinished at hfin
      generalize (s.request id).status = status at *
      cases status <;> simp_all [RequestStatus.place]
    have hrequest : s'.request = s.request := by
      obtain ⟨⟨id', s₁⟩, hpop, hskip⟩ := bind_eq_ok.mp hskip
      cases hskip
      rw [(popWaiting_spec hpop).2]
    have hsame : SamePlaces s' (s'.modify id fun r => { r with status := .waitingForRemoteKvs }) :=
      samePlaces_modify s' id (by rw [hrequest, hplace]; rfl) ⟨rfl, rfl, rfl⟩
    have hskipped : WaitingPartitioned (s', p, skipped') := h.skip hskip
    exact Partition.samePlaces hskipped hsame
  | accept _ hpop hschedule => exact h.accept hpop hschedule

theorem Partitioned.scheduleWaitingReqs [DecidableEq β] (h : s.Partitioned)
    (hrun : s.scheduleWaitingReqs cfg env p = .ok (s', p')) : s'.Partitioned := by
  obtain ⟨s₁, skipped, hsteps, rfl, -⟩ := scheduleWaitingReqs_steps hrun
  have hall : WaitingPartitioned (s₁, p', skipped) :=
    kept_by_steps (I := WaitingPartitioned) WaitStep.partitioned hsteps h
  exact (Partition.perm hall (.refl _) (RequestQueue.prependRequests_perm skipped)).congr rfl
    (fun _ => rfl) fun _ => .refl _

/-! ## A step of the schedule -/

theorem Partitioned.schedule [DecidableEq β] (h : s.Partitioned)
    (hrun : s.schedule cfg env = .ok (output, s')) : s'.Partitioned := by
  obtain ⟨s₁, s₂, s₃, p₁, p₂, p, n, hrunning, -, hwaiting, -, hout, rfl⟩ := schedule_parts hrun
  have hloop : s₁.Partitioned :=
    kept_by_steps (I := fun x : Scheduler β × Plan => x.1.Partitioned) RunStep.partitioned
      (runningLoop_steps hrunning) h
  exact ((hloop.scheduleWaitingReqs hwaiting).samePlaces (makeOutput_untouched hout).samePlaces).samePlaces
    (updateAfterSchedule_steps cfg s₃ output).samePlaces

/-! ## Around the loop of `update_from_output` -/

theorem Partitioned.freeBlocks (h : s.Partitioned) (hrun : s.freeBlocks cfg id = .ok s') : s'.Partitioned := by
  obtain ⟨hfin, hfreed⟩ := freeBlocks_spec hrun
  unfold Partitioned
  rw [hfreed.running, hfreed.waiting, hfreed.num]
  exact Partition.freedOnly h hfreed hfin

theorem Partitioned.updateFromKvXferFinished {k : KVConnectorOutput} (h : s.Partitioned)
    (hrun : s.updateFromKvXferFinished cfg k = .ok s') : s'.Partitioned := by
  obtain ⟨s₁, hrecving, hrun⟩ := bind_eq_ok.mp hrun
  refine kept_by_foldlM (fun hrun h => ?_) hrun (kept_by_foldlM (fun hrun h => ?_) hrecving h)
  · obtain ⟨_, -, hrun⟩ := bind_eq_ok.mp hrun
    exact h.freeBlocks hrun
  · obtain ⟨_, -, hrun⟩ := bind_eq_ok.mp hrun
    split at hrun
    · cases hrun
      exact h.samePlaces ⟨rfl, rfl, rfl, rfl, fun _ => rfl, fun _ => .refl _⟩
    · obtain ⟨_, -, hrun⟩ := bind_eq_ok.mp hrun
      exact h.freeBlocks hrun

/-! ## One request of an output -/

/-- A session that stops goes on, now or when it gets input, unless its end is queued. -/
def GoesOn (r : Request β) : Prop := r.resumable = true ∧ (r.streamingQueue.getD []).head? ≠ some none

/-- A request that stopped is done, or a session that is in the waiting queue again. -/
theorem handleStoppedRequest_spec {finished : Bool} (hfin : (s.request id).isFinished = true)
    (hrun : s.handleStoppedRequest cfg id = .ok (finished, s')) :
    OnlyAt id s s' ∧ s'.running = s.running ∧
      ((finished = true ∧ s'.waiting = s.waiting ∧
          s'.numWaitingForStreamingInput = s.numWaitingForStreamingInput ∧ (s'.request id).isFinished = true) ∨
        (finished = false ∧ GoesOn (s.request id) ∧ s'.waiting.Perm (id :: s.waiting) ∧
          s'.numWaitingForStreamingInput = s.numWaitingForStreamingInput + streamingCount (s'.request id) ∧
          (s'.request id).isFinished = false ∧ (s'.request id).status ≠ .running ∧
          ((s'.request id).status = .waitingForStreamingReq → AwaitsInput (s'.request id)))) := by
  unfold handleStoppedRequest at hrun
  dsimp only at hrun
  split at hrun
  · cases hrun
    exact ⟨⟨rfl, fun _ _ => rfl⟩, rfl, .inl ⟨rfl, rfl, rfl, hfin⟩⟩
  · next hresumable =>
    rw [Bool.not_eq_true, Bool.not_eq_false'] at hresumable
    split at hrun
    · next update rest hqueue =>
      cases update with
      | none =>
        cases hrun
        refine ⟨onlyAt_modify s id _, rfl, .inl ⟨rfl, rfl, rfl, ?_⟩⟩
        rw [modify_request_self]
        exact hfin
      | some update =>
        obtain ⟨s₁, hupdate, hrun⟩ := bind_eq_ok.mp hrun
        cases hrun
        obtain ⟨hc, hst, hr, hw, hn⟩ := updateRequestAsSession_spec hupdate
        have hzero : streamingCount ((s.modify id fun r => { r with streamingQueue := some rest }).request id) =
            0 := by
          rw [modify_request_self]
          refine if_neg fun hst => ?_
          have hst' : (s.request id).status = .waitingForStreamingReq := hst
          rw [isFinished_of_status hst'] at hfin
          cases hfin
        rw [hzero] at hn
        refine ⟨(onlyAt_modify s id _).trans ⟨hc.requests, hc.others⟩, hr, .inr ⟨rfl,
          ⟨hresumable, by simp [hqueue]⟩, ?_, ?_, ?_, ?_, ?_⟩⟩
        · show (RequestQueue.addRequest _ _ s₁.waiting id).Perm _
          rw [hw]
          exact RequestQueue.addRequest_perm id
        · show s₁.numWaitingForStreamingInput = _ + streamingCount (s₁.request id)
          rw [hn]
          simp [modify, streamingCount, hst]
        all_goals simp [addWaiting, isFinished_of_status hst, hst, RequestStatus.isFinished]
    · next hqueue =>
      cases hrun
      refine ⟨⟨rfl, fun x hx => Function.update_of_ne hx _ _⟩, rfl,
        .inr ⟨rfl, ⟨hresumable, by simp [hqueue]⟩, ?_, ?_, ?_, ?_, ?_⟩⟩
      · exact RequestQueue.addRequest_perm id
      all_goals simp [addWaiting, modify, streamingCount, Request.isFinished, RequestStatus.isFinished, AwaitsInput,
        hqueue, hresumable]

/-- The request, as it is behind its rejected drafts, stops with what it gets. -/
def StopsWith (cfg : SchedulerConfig β) (out : ModelRunnerOutput) (id : Nat) (r : Request (List β)) : Prop :=
  if out.sampledTokenIds id = [] then r.pooling = true ∧ out.hasPoolerOutput id = true
  else ¬ (cfg.asyncScheduling = true ∧ r.discardLatestAsyncTokens = true) ∧ ∃ r' kept,
    Core.updateRequestWithOutput cfg.hashes cfg.blockSize cfg.maxModelLen r (out.sampledTokenIds id) =
      .ok (r', kept, true)

theorem checkOutput_stopsWith [DecidableEq β]
    (hrun : s.checkOutput cfg id (out.sampledTokenIds id) (out.hasPoolerOutput id) = .ok (true, s')) :
    StopsWith cfg out id (s.request id) := by
  unfold checkOutput at hrun
  unfold StopsWith
  split at hrun
  · next hsampled =>
    rw [if_neg hsampled]
    obtain ⟨⟨kept, stopped, s₁⟩, hupdate, hrun⟩ := bind_eq_ok.mp hrun
    cases hrun
    unfold updateRequestWithOutput at hupdate
    dsimp only at hupdate
    split at hupdate
    · cases hupdate
    · next hdiscard =>
      obtain ⟨⟨r', kept', stopped'⟩, hrequest, hupdate⟩ := bind_eq_ok.mp hupdate
      refine ⟨by simpa using hdiscard, r', kept', ?_⟩
      split at hupdate
      · cases hupdate
        exact hrequest
      · obtain ⟨_, -, hupdate⟩ := bind_eq_ok.mp hupdate
        obtain ⟨kv, -, hupdate⟩ := bind_eq_ok.mp hupdate
        cases hupdate
        exact hrequest
  · next hsampled =>
    rw [if_pos (not_not.mp hsampled)]
    split at hrun
    · next hpooling => simpa using hpooling
    · cases hrun

theorem rejectDrafts_rejected (s : Scheduler β) (id numDraftTokens : Nat) (generatedTokenIds : List Nat) :
    ((s.rejectDrafts id numDraftTokens generatedTokenIds).request id).status = (s.request id).status ∧
      SameRole (s.request id) ((s.rejectDrafts id numDraftTokens generatedTokenIds).request id) ∧
      OnlyRequest id s (s.rejectDrafts id numDraftTokens generatedTokenIds) := by
  refine ⟨?_, ?_, rejectDrafts_onlyRequest ..⟩
  all_goals
    unfold rejectDrafts
    split
  · rfl
  · rw [modify_request_self]
  · exact .refl _
  · rw [modify_request_self]
    exact ⟨rfl, rfl, rfl⟩

/-- The output stops a session that does not run and that goes on. -/
def LosesSession (cfg : SchedulerConfig β) (output : SchedulerOutput) (out : ModelRunnerOutput) (s : Scheduler β)
    (id : Nat) : Prop :=
  id ∈ s.requests ∧ (s.request id).isFinished = false ∧ (s.request id).status ≠ .running ∧
    GoesOn (s.request id) ∧ StopsWith cfg out id ((s.rejectDrafts id
      ((output.scheduledSpecDecodeTokens.get? id).getD []).length (out.sampledTokenIds id)).request id)

theorem LosesSession.congr (h : LosesSession cfg output out s' id) (hmem : id ∈ s'.requests → id ∈ s.requests)
    (hrequest : s'.request id = s.request id) : LosesSession cfg output out s id := by
  have hreject : ∀ n toks, (s'.rejectDrafts id n toks).request id = (s.rejectDrafts id n toks).request id := by
    intro n toks
    unfold rejectDrafts
    split
    · exact hrequest
    · rw [modify_request_self, modify_request_self, hrequest]
  unfold LosesSession at h
  rw [hrequest, hreject] at h
  exact ⟨hmem h.1, h.2⟩

/-! ## The loop of `update_from_output` -/

/-- Inside of the loop: the queues without what is to be removed behind it are right. -/
structure Settling (s : Scheduler β) (c : Stopped) : Prop where
  running_nodup : s.running.Nodup
  partition : Partition s (s.running.filter (· ∉ c.stoppedRunningReqs))
    (s.waiting.filter (· ∉ c.stoppedPreemptedReqs)) s.numWaitingForStreamingInput

theorem Settling.samePlaces (h : Settling s c) (hs : SamePlaces s s') : Settling s' c := by
  refine ⟨hs.running ▸ h.running_nodup, ?_⟩
  rw [hs.running, hs.waiting, hs.num]
  exact Partition.samePlaces h.partition hs

/-- With one more element to leave out. -/
theorem filter_not_mem_append (l c : List Nat) (id : Nat) :
    l.filter (· ∉ c ++ [id]) = (l.filter (· ∉ c)).filter (· ≠ id) := by
  rw [List.filter_filter]
  simp [and_comm]

/-- A request that is done leaves its queue. -/
theorem Settling.finish (h : Settling s c) (hid : id ∈ s.requests) (hc : OnlyAt id s s₁)
    (hfin : (s₁.request id).isFinished = true) (hstreaming : (s.request id).status ≠ .waitingForStreamingReq)
    (hr : s₁.running = s.running) (hw : s₁.waiting = s.waiting)
    (hn : s₁.numWaitingForStreamingInput = s.numWaitingForStreamingInput) :
    Settling s₁ (c.add id (s.request id).status) := by
  have hpart := h.partition.finish hid hc hfin
  rw [streamingCount, if_neg hstreaming, sub_zero] at hpart
  refine ⟨hr ▸ h.running_nodup, ?_⟩
  rw [hr, hw, hn]
  unfold Stopped.add
  split
  · next hst =>
    have hnot : ∀ x ∈ s.waiting.filter (· ∉ c.stoppedPreemptedReqs), decide (x ≠ id) = true := by
      intro x hx
      have hstx := ((h.partition.mem_waiting x).mp hx).2.2
      exact decide_eq_true fun heq => hstx (heq ▸ hst)
    rw [List.filter_eq_self.mpr hnot] at hpart
    rw [filter_not_mem_append]
    exact hpart
  · next hst =>
    have hnot : ∀ x ∈ s.running.filter (· ∉ c.stoppedRunningReqs), decide (x ≠ id) = true := by
      intro x hx
      have hstx := ((h.partition.mem_running x).mp hx).2
      exact decide_eq_true fun heq => hst (heq ▸ hstx)
    rw [List.filter_eq_self.mpr hnot] at hpart
    rw [filter_not_mem_append]
    exact hpart

/-- A session that goes on moves to the waiting queue. -/
theorem Settling.goOn (h : Settling s c) (hid : id ∈ s.requests) (hst : (s.request id).status = .running)
    (hnew : id ∉ c.stoppedPreemptedReqs) (hc : OnlyAt id s s₁) (hfin : (s₁.request id).isFinished = false)
    (hrun : (s₁.request id).status ≠ .running)
    (hawaits : (s₁.request id).status = .waitingForStreamingReq → AwaitsInput (s₁.request id))
    (hr : s₁.running = s.running) (hw : s₁.waiting.Perm (id :: s.waiting))
    (hn : s₁.numWaitingForStreamingInput = s.numWaitingForStreamingInput + streamingCount (s₁.request id)) :
    Settling s₁ (c.add id (s.request id).status) := by
  have hmem := (h.partition.mem_running id).mpr ⟨hid, hst⟩
  have hperm := List.perm_cons_erase hmem
  rw [h.partition.running_nodup.erase_eq_filter] at hperm
  have hpart := (h.partition.perm hperm.symm (.refl _)).toWaiting hc hfin hrun hawaits
  refine ⟨hr ▸ h.running_nodup, ?_⟩
  rw [hr, hn, Stopped.add, if_pos hst, filter_not_mem_append]
  refine hpart.perm ?_ ?_
  · exact List.Perm.of_eq (List.filter_congr fun x _ => by simp [bne, BEq.beq])
  · refine (hw.filter _).trans ?_
    simp [hnew]

theorem Settling.handleStopped {requestFinished : Nat → Bool} (h : Settling s c) (hid : id ∈ s.requests)
    (hnew : id ∉ c.stoppedPreemptedReqs) (honly : OnlyRequest id s s₁)
    (hrole : SameRole (s.request id) (s₁.request id)) (hfin : (s₁.request id).isFinished = true)
    (hkeeps : (s.request id).status ≠ .running → ¬ GoesOn (s.request id))
    (hrun : s₁.handleStopped cfg requestFinished id = .ok s') :
    Settling s' (c.add id (s.request id).status) ∧ ∀ x ∈ s'.requests, x ∈ s.requests := by
  -- the output changes neither whether the session may go on nor what is queued for it
  have hgoes : ∀ {r : Request (List β)}, SameRole (s.request id) r → (GoesOn r ↔ GoesOn (s.request id)) := by
    intro r hr
    rw [GoesOn, hr.resumable, hr.streamingQueue, GoesOn]
  obtain ⟨⟨finished, s₂⟩, hhandle, hrun⟩ := bind_eq_ok.mp hrun
  obtain ⟨hc, hr, hcases⟩ := handleStoppedRequest_spec hfin hhandle
  have hc₂ := honly.toOnlyAt.trans hc
  rcases hcases with ⟨rfl, hw, hn, hfin₂⟩ | ⟨rfl, hon, hw, hn, hfin₂, hrun₂, hawaits⟩
  · -- done: one that waits for input would have gone on, so the counter stays
    obtain ⟨-, hfreed⟩ := freeRequest_spec hrun
    have hstreaming : (s.request id).status ≠ .waitingForStreamingReq := by
      intro hst
      obtain ⟨hqueue, hresumable⟩ := h.partition.queue id hid hst
      refine hkeeps (by rw [hst]; decide) ⟨hresumable, ?_⟩
      rw [hqueue]
      nofun
    have hsettled := h.finish hid hc₂ hfin₂ hstreaming (hr.trans honly.running) (hw.trans honly.waiting)
      (hn.trans honly.num)
    refine ⟨⟨hfreed.running ▸ hsettled.running_nodup, ?_⟩, fun x hx => ?_⟩
    · rw [hfreed.running, hfreed.waiting, hfreed.num]
      exact Partition.freedOnly hsettled.partition hfreed hfin₂
    · rw [← hc₂.requests]
      rcases hfreed.requests with heq | heq <;> rw [heq] at hx
      · exact hx
      · exact List.mem_of_mem_erase hx
  · -- goes on: it has to leave the running list, not the queue it has just been added to
    cases hrun
    have hst : (s.request id).status = .running := by
      by_contra hst
      exact hkeeps hst ((hgoes hrole).mp hon)
    refine ⟨?_, fun x hx => hc₂.requests ▸ hx⟩
    rw [honly.waiting] at hw
    rw [honly.num] at hn
    exact h.goOn hid hst hnew hc₂ hfin₂ hrun₂ hawaits (hr.trans honly.running) hw hn

/-- One entry of the output, if it loses no session. -/
theorem processOutput_settling [DecidableEq β] {failed : List Nat} {acc acc' : Scheduler β × Stopped}
    {entry : Nat × Int} (h : Settling acc.1 acc.2) (hnew : entry.1 ∉ acc.2.stoppedPreemptedReqs)
    (hkeeps : entry.1 ∉ failed → ¬ LosesSession cfg output out acc.1 entry.1)
    (hrun : processOutput cfg output out failed acc entry = .ok acc') :
    Settling acc'.1 acc'.2 ∧ (∀ x ∈ acc'.1.requests, x ∈ acc.1.requests) ∧
      (acc'.2 = acc.2 ∨ ∃ status, acc'.2 = acc.2.add entry.1 status) := by
  obtain ⟨_, -, hrun⟩ := bind_eq_ok.mp hrun
  split at hrun
  · cases hrun
    exact ⟨h, fun _ hx => hx, .inl rfl⟩
  · next hfailed =>
    split at hrun
    · cases hrun
      exact ⟨h, fun _ hx => hx, .inl rfl⟩
    · next hlive =>
      obtain ⟨hid, hlive⟩ := not_or.mp hlive
      have hid := not_not.mp hid
      have hlive := Bool.eq_false_iff.mpr hlive
      obtain ⟨⟨stopped, s₁⟩, hcheck, hrun⟩ := bind_eq_ok.mp hrun
      have hreject := rejectDrafts_rejected acc.1 entry.1
        ((output.scheduledSpecDecodeTokens.get? entry.1).getD []).length (out.sampledTokenIds entry.1)
      obtain ⟨hst, hrole, honly⟩ := hreject
      obtain ⟨honly₁, hrole₁, hstop, hgoes⟩ := checkOutput_spec hcheck
      cases stopped with
      | false =>
        cases hrun
        have hsame := (honly.trans honly₁).samePlaces (by rw [hgoes rfl, hst]) (hrole.trans hrole₁)
        exact ⟨h.samePlaces hsame, fun x hx => hsame.requests ▸ hx, .inl rfl⟩
      | true =>
        obtain ⟨s₂, hstopped, hrun⟩ := bind_eq_ok.mp hrun
        have hnot : (acc.1.request entry.1).status ≠ .running → ¬ GoesOn (acc.1.request entry.1) :=
          fun hst' hon => hkeeps hfailed ⟨hid, hlive, hst', hon, checkOutput_stopsWith hcheck⟩
        obtain ⟨hsettled, hmem⟩ := h.handleStopped hid hnew (honly.trans honly₁) (hrole.trans hrole₁)
          (hstop rfl) hnot hstopped
        have hacc : acc' = (s₂, acc.2.add entry.1 (acc.1.request entry.1).status) := by
          rw [hst] at hrun
          unfold Stopped.add
          split at hrun
          · next hst' =>
            cases hrun
            rw [if_pos hst']
          · next hst' =>
            cases hrun
            rw [if_neg hst']
        rw [hacc]
        exact ⟨hsettled, hmem, .inr ⟨_, rfl⟩⟩

theorem foldlM_processOutput_settling [DecidableEq β] {failed : List Nat} {entries : List (Nat × Int)}
    {acc acc' : Scheduler β × Stopped} (h : Settling acc.1 acc.2) (hnodup : (entries.map Prod.fst).Nodup)
    (hnew : ∀ x ∈ entries.map Prod.fst, x ∉ acc.2.stoppedPreemptedReqs)
    (hkeeps : ∀ x ∈ entries.map Prod.fst, x ∉ failed → ¬ LosesSession cfg output out acc.1 x)
    (hrun : entries.foldlM (processOutput cfg output out failed) acc = .ok acc') : Settling acc'.1 acc'.2 := by
  induction entries generalizing acc with
  | nil =>
    cases hrun
    exact h
  | cons entry entries ih =>
    obtain ⟨acc₁, hstep, hrun⟩ := bind_eq_ok.mp hrun
    rw [List.map_cons, List.nodup_cons] at hnodup
    obtain ⟨hsettling, hmem, hadd⟩ := processOutput_settling h (hnew _ List.mem_cons_self)
      (hkeeps _ List.mem_cons_self) hstep
    -- the other entries find their requests as they were
    have hne : ∀ x ∈ entries.map Prod.fst, x ≠ entry.1 := fun x hx heq => hnodup.1 (heq ▸ hx)
    refine ih hsettling hnodup.2 (fun x hx => ?_) (fun x hx hfailed hloses => ?_) hrun
    · have hx' := hnew x (List.mem_cons_of_mem _ hx)
      have hne := hne x hx
      rcases hadd with heq | ⟨status, heq⟩
      · rwa [heq]
      · rw [heq, Stopped.add]
        split <;> simp [hx', hne]
    · exact hkeeps x (List.mem_cons_of_mem _ hx) hfailed
        (hloses.congr (hmem x) (processOutput_others hstep (hne x hx)))

/-- Behind the loop, the stopped requests leave the queues. -/
theorem Settling.removeStopped (h : Settling s c) : (s.removeStopped cfg c).Partitioned := by
  have hpart := h.partition
  refine Partition.congr (Partition.perm hpart ?_ ?_) rfl (fun _ => rfl) fun _ => .refl _
  · show (removeAll s.running c.stoppedRunningReqs).Perm _
    rw [removeAll_eq h.running_nodup]
  · show List.Perm (if _ then _ else _) _
    split
    · next hnil =>
      rw [hnil]
      simp
    · exact RequestQueue.removeRequests_perm _

/-- An output that loses no session keeps the partition. -/
theorem Partitioned.updateFromOutput [DecidableEq β] (h : s.Partitioned)
    (hkeeps : ∀ failed s₁, s.failedKvLoads cfg out.kvConnectorOutput = .ok (failed, s₁) →
      ∀ x ∈ output.numScheduledTokens.keys, x ∉ failed → ¬ LosesSession cfg output out s₁ x)
    (hrun : s.updateFromOutput cfg output out = .ok s') : s'.Partitioned := by
  obtain ⟨⟨failed, s₁⟩, hfailed, hrun⟩ := bind_eq_ok.mp hrun
  obtain ⟨⟨s₂, c⟩, hloop, hrun⟩ := bind_eq_ok.mp hrun
  obtain ⟨s₃, hfail, hrun⟩ := bind_eq_ok.mp hrun
  -- in front of the loop there is nothing to remove, behind it the lists are right again
  have hstart : s₁.Partitioned := h.samePlaces (failedKvLoads_steps hfailed).samePlaces
  have hinitial : Settling s₁ {} := by
    refine ⟨hstart.running_nodup, ?_⟩
    simpa using hstart
  have hsettling : Settling s₂ c := by
    refine foldlM_processOutput_settling ?_ output.numScheduledTokens.nodup ?_ ?_ hloop
    · exact hinitial
    · simp
    · exact hkeeps failed s₁ hfailed
  have hremoved : (s₂.removeStopped cfg c).Partitioned := hsettling.removeStopped
  have hdone : s₃.Partitioned := by
    unfold failKvLoads at hfail
    split at hfail
    · cases hfail
      exact hremoved
    · exact hremoved.finishRequests hfail
  split at hrun
  · cases hrun
    exact hdone
  · exact hdone.updateFromKvXferFinished hrun

/-! ## Runs -/

/-- Every request that is not finished is in one queue, once; a queue has no other requests; and the
sessions that wait for input are counted. -/
structure QueuesPartition (s : Scheduler β) : Prop where
  once : ∀ id ∈ s.requests, (s.request id).isFinished = false → s.running.count id + s.waiting.count id = 1
  live : ∀ id, id ∈ s.running ∨ id ∈ s.waiting → id ∈ s.requests ∧ (s.request id).isFinished = false
  streaming : s.numWaitingForStreamingInput =
    s.requests.countP fun id => (s.request id).status = .waitingForStreamingReq

theorem Partitioned.queuesPartition (h : s.Partitioned) : s.QueuesPartition where
  once id hid hlive := by
    have hr := h.mem_running id
    have hw := h.mem_waiting id
    rw [h.running_nodup.count, h.waiting_nodup.count]
    by_cases hst : (s.request id).status = .running <;> simp [hr, hw, hid, hlive, hst]
  live id hmem := by
    rcases hmem with hmem | hmem
    · obtain ⟨hid, hst⟩ := (h.mem_running id).mp hmem
      exact ⟨hid, by rw [isFinished_of_status hst]; rfl⟩
    · obtain ⟨hid, hlive, -⟩ := (h.mem_waiting id).mp hmem
      exact ⟨hid, hlive⟩
  streaming := h.streaming

end Scheduler

namespace SchedulerRun

open Scheduler

variable {β : Type} [DecidableEq β] {cfg : SchedulerConfig β}

/-- The output that a call processes loses no session. -/
def KeepsSessions (cfg : SchedulerConfig β) (r : SchedulerRun β) (op : Op β) : Prop :=
  ∀ out output inFlight failed s, op = .updateFromOutput out → r.inFlight = output :: inFlight →
    r.scheduler.failedKvLoads cfg out.kvConnectorOutput = .ok (failed, s) →
    ∀ id ∈ output.numScheduledTokens.keys, id ∉ failed → ¬ LosesSession cfg output out s id

theorem step_partitioned {r r' : SchedulerRun β} {op : Op β} (h : r.scheduler.Partitioned)
    (henabled : op.Enabled cfg) (hkeeps : KeepsSessions cfg r op) (hstep : r.step cfg op = .ok r') :
    r'.scheduler.Partitioned := by
  cases op with
  | addRequest requestFinished request =>
    obtain ⟨s', hrun, hstep⟩ := bind_eq_ok.mp hstep
    cases hstep
    exact h.addRequest henabled hrun
  | schedule env =>
    obtain ⟨⟨output, s'⟩, hrun, hstep⟩ := bind_eq_ok.mp hstep
    cases hstep
    exact h.schedule hrun
  | updateFromOutput out =>
    change r.updateOldest cfg out = .ok r' at hstep
    unfold updateOldest at hstep
    split at hstep
    · cases hstep
    · next output inFlight hinFlight =>
      obtain ⟨s', hrun, hstep⟩ := bind_eq_ok.mp hstep
      cases hstep
      exact h.updateFromOutput (fun failed s hfailed => hkeeps out output inFlight failed s rfl hinFlight hfailed)
        hrun
  | updateDraftTokenIds validateTokens drafts =>
    cases hstep
    exact h.samePlaces (updateDraftTokenIds_steps r.scheduler validateTokens drafts).samePlaces
  | updateDraftTokenIdsInOutput i validateTokens drafts =>
    cases hstep
    exact h
  | finishRequests requestFinished requestIds finishedStatus =>
    obtain ⟨s', hrun, hstep⟩ := bind_eq_ok.mp hstep
    cases hstep
    exact h.finishRequests hrun
  | resetPrefixCache resetRunningRequests =>
    obtain ⟨⟨successful, s'⟩, hrun, hstep⟩ := bind_eq_ok.mp hstep
    cases hstep
    exact h.resetPrefixCache hrun
  | setPauseState pauseState =>
    cases hstep
    exact h.samePlaces ⟨rfl, rfl, rfl, rfl, fun _ => rfl, fun _ => .refl _⟩

/-- In every run whose outputs lose no session, the queues partition the requests that are not finished. -/
theorem queues_partition {r : SchedulerRun β} (h : ReachableWith cfg (KeepsSessions cfg) r) :
    r.scheduler.QueuesPartition := by
  apply Partitioned.queuesPartition
  induction h with
  | start => exact ⟨.nil, .nil, .nil, by simp [init], by simp [init], rfl, by simp [init]⟩
  | step _ henabled hmeets hstep ih => exact step_partitioned ih henabled hmeets hstep

theorem keepsSessions_of_ne {r : SchedulerRun β} {op : Op β} (hop : ∀ out, op ≠ .updateFromOutput out) :
    KeepsSessions cfg r op :=
  fun out _ _ _ _ h => absurd h (hop out)

/-! ## A session that is preempted with its output in flight -/

/-- One token of a prompt at a time, with blocks of one token. -/
def oneTokenChunks : SchedulerConfig Nat := { streaming with longPrefillTokenThreshold := 1 }

/-- A request that samples one token. -/
def oneToken (requestId : Nat) (tokenIds : List Nat) (resumable : Bool) : Request (List Nat) :=
  initBlockHashes streaming.hashes streaming.blockSize {
    requestId, promptTokenIds := some tokenIds, numPromptTokens := tokenIds.length
    allTokenIds := tokenIds, maxTokens := 1, resumable }

theorem oneToken_isNew (requestId : Nat) (tokenIds : List Nat) (resumable : Bool) :
    (oneToken requestId tokenIds resumable).IsNew streaming.hashes streaming.blockSize :=
  ⟨rfl, rfl, fun _ h => Option.some.inj h, rfl, rfl, rfl, rfl, rfl, rfl, rfl, rfl, rfl⟩

/-- There are two blocks, and the second step takes the one of the session for the long prompt. -/
def preempting : Except PyError (SchedulerRun Nat) := do
  let (_, kv) ← PoolRuns.start 3 true []
  let r : SchedulerRun Nat := { scheduler := .init kv 0 }
  let r ← r.step oneTokenChunks (.addRequest (fun _ => false) (oneToken 0 [1, 2, 3] false))
  let r ← r.step oneTokenChunks (.addRequest (fun _ => false) (oneToken 1 [4] true))
  let r ← r.step oneTokenChunks (.schedule {})
  r.step oneTokenChunks (.schedule {})

theorem preempting_reachable {r : SchedulerRun Nat} (hr : preempting = .ok r) :
    ReachableWith oneTokenChunks (KeepsSessions oneTokenChunks) r := by
  obtain ⟨⟨sinkBlocks, kv⟩, hstart, hr⟩ := bind_eq_ok.mp hr
  obtain ⟨r₁, h₁, hr⟩ := bind_eq_ok.mp hr
  obtain ⟨r₂, h₂, hr⟩ := bind_eq_ok.mp hr
  obtain ⟨r₃, h₃, hr⟩ := bind_eq_ok.mp hr
  have hreach₁ : ReachableWith oneTokenChunks (KeepsSessions oneTokenChunks) r₁ := by
    refine .step (.start hstart) ?_ ?_ h₁
    · exact oneToken_isNew 0 [1, 2, 3] false
    · exact keepsSessions_of_ne nofun
  have hreach₂ : ReachableWith oneTokenChunks (KeepsSessions oneTokenChunks) r₂ := by
    refine .step hreach₁ ?_ ?_ h₂
    · exact oneToken_isNew 1 [4] true
    · exact keepsSessions_of_ne nofun
  have hreach₃ : ReachableWith oneTokenChunks (KeepsSessions oneTokenChunks) r₃ := by
    refine .step hreach₂ ?_ ?_ h₃
    · exact trivial
    · exact keepsSessions_of_ne nofun
  refine .step hreach₃ ?_ ?_ hr
  · exact trivial
  · exact keepsSessions_of_ne nofun

/-- With two steps in flight, the session is in the waiting queue. -/
theorem queues_partition_preempting :
    ∃ r, preempting = .ok r ∧ r.scheduler.running = [0] ∧ r.scheduler.waiting = [1] ∧ r.scheduler.QueuesPartition := by
  obtain ⟨r, hr⟩ : ∃ r, preempting = .ok r := ⟨_, rfl⟩
  have hpart := queues_partition (preempting_reachable hr)
  refine ⟨r, hr, ?_, ?_, hpart⟩
  · cases hr
    rfl
  · cases hr
    rfl

/-- The first of the two outputs stops the session, and it is in no queue any more. -/
theorem queues_partition_fails :
    ∃ r r', preempting = .ok r ∧
      r.step oneTokenChunks (.updateFromOutput { sampledTokenIds := fun id => if id = 1 then [5] else [] }) =
        .ok r' ∧
      Reachable oneTokenChunks r' ∧ 1 ∈ r'.scheduler.requests ∧ (r'.scheduler.request 1).isFinished = false ∧
      r'.scheduler.running = [0] ∧ r'.scheduler.waiting = [] ∧ ¬ r'.scheduler.QueuesPartition := by
  obtain ⟨r, hr⟩ : ∃ r, preempting = .ok r := ⟨_, rfl⟩
  obtain ⟨r', hr'⟩ : ∃ r', (preempting >>= fun r => r.step oneTokenChunks
      (.updateFromOutput { sampledTokenIds := fun id => if id = 1 then [5] else [] })) = .ok r' := ⟨_, rfl⟩
  have hstep := hr'
  rw [hr, ok_bind] at hstep
  have hreach : Reachable oneTokenChunks r' := by
    refine .step (preempting_reachable hr).reachable ?_ trivial hstep
    exact trivial
  obtain ⟨hmem, hlive, hrunning, hwaiting⟩ : 1 ∈ r'.scheduler.requests ∧
      (r'.scheduler.request 1).isFinished = false ∧ r'.scheduler.running = [0] ∧ r'.scheduler.waiting = [] := by
    cases hr'
    exact ⟨by decide +kernel, rfl, rfl, rfl⟩
  refine ⟨r, r', hr, hstep, hreach, hmem, hlive, hrunning, hwaiting, fun hpart => ?_⟩
  have honce := hpart.once 1 hmem hlive
  rw [hrunning, hwaiting] at honce
  cases honce

end SchedulerRun
end Yuan.Core
