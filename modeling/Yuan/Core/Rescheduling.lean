import Yuan.Core.QueuePartition
import Yuan.Core.WaitingOrder

/-!
# What scheduling leaves alone

Most methods of the scheduler write to the counters of a request and to its status, and leave its
input, its tokens and its parameters alone. The tokens change only where output is appended, where a
session continues, and where a request is added.
-/

namespace Yuan.Core

namespace Request

variable {β : Type}

/-- Nothing but the status, the drafts and the counters of a request has changed. -/
def Rescheduled (r r' : Request β) : Prop :=
  ∃ status specTokenIds numComputedTokens numOutputPlaceholders discardLatestAsyncTokens numCachedTokens
      isPrefillChunk numPreemptions numExternalComputedTokens,
    r' = { r with
      status, specTokenIds, numComputedTokens, numOutputPlaceholders, discardLatestAsyncTokens
      numCachedTokens, isPrefillChunk, numPreemptions, numExternalComputedTokens }

theorem Rescheduled.refl (r : Request β) : Rescheduled r r := ⟨_, _, _, _, _, _, _, _, _, rfl⟩

theorem Rescheduled.trans {r r' r'' : Request β} (h : Rescheduled r r') (h' : Rescheduled r' r'') :
    Rescheduled r r'' := by
  obtain ⟨_, _, _, _, _, _, _, _, _, rfl⟩ := h
  obtain ⟨_, _, _, _, _, _, _, _, _, rfl⟩ := h'
  exact ⟨_, _, _, _, _, _, _, _, _, rfl⟩

end Request

namespace Scheduler

variable {β : Type} {cfg : SchedulerConfig β} {env : ScheduleEnv} {s s' s'' : Scheduler β}
variable {p p' : Plan} {id : Nat} {requestFinished : Nat → Bool}

/-- All requests are the same, but for what scheduling changes. -/
def Rescheduled (s s' : Scheduler β) : Prop := ∀ x, (s.request x).Rescheduled (s'.request x)

theorem Rescheduled.refl (s : Scheduler β) : Rescheduled s s := fun _ => .refl _

theorem Rescheduled.trans (h : Rescheduled s s') (h' : Rescheduled s' s'') : Rescheduled s s'' :=
  fun x => (h x).trans (h' x)

theorem rescheduled_of_request (h : s'.request = s.request) : Rescheduled s s' := by
  intro x
  rw [h]
  exact .refl _

theorem Rescheduled.modify (h : Rescheduled s s') {f : Request (List β) → Request (List β)}
    (hf : (s'.request id).Rescheduled (f (s'.request id))) : Rescheduled s (s'.modify id f) := by
  intro x
  apply (h x).trans
  by_cases hx : x = id
  · subst hx
    rw [modify_request_self]
    exact hf
  · rw [modify_request_of_ne _ hx]
    exact .refl _

theorem Rescheduled.prependWaiting (h : Rescheduled s s') : Rescheduled s (s'.prependWaiting cfg id) := h

/-! ## Finishing and preempting -/

theorem freeRequest_rescheduled {delay : Bool} (hrun : s.freeRequest cfg requestFinished id delay = .ok s') :
    Rescheduled s s' :=
  rescheduled_of_request (freeRequest_spec hrun).2.request

theorem freeBlocks_rescheduled (hrun : s.freeBlocks cfg id = .ok s') : Rescheduled s s' :=
  rescheduled_of_request (freeBlocks_spec hrun).2.request

theorem finishRequest_rescheduled {status : RequestStatus}
    (hrun : s.finishRequest cfg requestFinished status id = .ok s') : Rescheduled s s' := by
  refine Rescheduled.trans ?_ (freeRequest_rescheduled hrun)
  have hdiscard : Rescheduled s (s.discardTransfer id) := rescheduled_of_request rfl
  exact hdiscard.modify ⟨_, _, _, _, _, _, _, _, _, rfl⟩

theorem finishRequests_rescheduled {requestIds : Option (List Nat)} {status : RequestStatus}
    (hrun : s.finishRequests cfg requestFinished requestIds status = .ok s') : Rescheduled s s' := by
  obtain ⟨_, -, hrun⟩ := bind_eq_ok.mp hrun
  have hremoved : Rescheduled s (s.removeFromQueues cfg (s.validRequests requestIds)) :=
    rescheduled_of_request rfl
  exact hremoved.trans (holds_of_foldlM .refl .trans finishRequest_rescheduled hrun)

theorem preemptRequest_rescheduled (hrun : s.preemptRequest cfg id = .ok s') : Rescheduled s s' := by
  obtain ⟨_, -, hrun⟩ := bind_eq_ok.mp hrun
  obtain ⟨kv, -, hrun⟩ := bind_eq_ok.mp hrun
  cases hrun
  have hkv : Rescheduled s
      { s with kv, encoderCacheManager := s.encoderCacheManager.free id (s.request id).mmFeatures } :=
    rescheduled_of_request rfl
  refine Rescheduled.prependWaiting ?_
  exact hkv.modify ⟨_, _, _, _, _, _, _, _, _, rfl⟩

theorem preemptAll_rescheduled {fuel : Nat} (hrun : s.preemptAll cfg fuel = .ok s') : Rescheduled s s' := by
  induction fuel generalizing s with
  | zero =>
    obtain rfl := Except.ok.inj hrun
    exact .refl s
  | succ fuel ih =>
    rw [preemptAll] at hrun
    split at hrun
    · obtain rfl := Except.ok.inj hrun
      exact .refl s
    · obtain ⟨s₁, hpreempt, hrun⟩ := bind_eq_ok.mp hrun
      have hpop : Rescheduled s { s with running := s.running.dropLast } := rescheduled_of_request rfl
      have hone := hpop.trans (preemptRequest_rescheduled hpreempt)
      refine Rescheduled.trans ?_ (ih hrun)
      exact hone.modify ⟨_, _, _, _, _, _, _, _, _, rfl⟩

theorem resetPrefixCache_rescheduled {resetRunningRequests successful : Bool}
    (hrun : s.resetPrefixCache cfg resetRunningRequests = .ok (successful, s')) : Rescheduled s s' := by
  obtain ⟨s₁, hreset, hrun⟩ := bind_eq_ok.mp hrun
  have hrescheduled : Rescheduled s s₁ := by
    unfold resetRunning at hreset
    split at hreset
    · obtain ⟨s₂, hpreempt, hreset⟩ := bind_eq_ok.mp hreset
      cases hreset
      exact (preemptAll_rescheduled hpreempt).trans (rescheduled_of_request rfl)
    · cases hreset
      exact .refl s
  dsimp only at hrun
  split at hrun
  · cases hrun
  · cases hrun
    exact hrescheduled

/-! ## Waiting requests -/

theorem Untouched.rescheduled (h : Untouched s s') : Rescheduled s s' := rescheduled_of_request h.request

theorem CountSteps.rescheduled (h : CountSteps s s') : Rescheduled s s' := by
  apply holds_of_steps Rescheduled.refl Rescheduled.trans _ h
  rintro s _ (h | ⟨id, _, _, _, _, _, rfl⟩)
  · exact h.rescheduled
  · exact (Rescheduled.refl s).modify ⟨_, _, _, _, _, _, _, _, _, rfl⟩

theorem VisitStep.rescheduled (hstep : VisitStep id s s') : Rescheduled s s' := by
  cases hstep with
  | untouched h => exact h.rescheduled
  | loaded => exact (Rescheduled.refl s).modify ⟨_, _, _, _, _, _, _, _, _, rfl⟩
  | unblocked => exact (Rescheduled.refl s).modify ⟨_, _, _, _, _, _, _, _, _, rfl⟩
  | matched => exact (Rescheduled.refl s).modify ⟨_, _, _, _, _, _, _, _, _, rfl⟩

theorem popWaiting_rescheduled (hrun : s.popWaiting cfg = .ok (id, s')) : Rescheduled s s' := by
  obtain ⟨⟨id', waiting⟩, -, hrun⟩ := bind_eq_ok.mp hrun
  cases hrun
  exact rescheduled_of_request rfl

theorem skipWaiting_rescheduled {skipped skipped' : List Nat}
    (hrun : s.skipWaiting cfg skipped = .ok (s', skipped')) : Rescheduled s s' := by
  obtain ⟨⟨id, s₁⟩, hpop, hrun⟩ := bind_eq_ok.mp hrun
  cases hrun
  exact popWaiting_rescheduled hpop

theorem scheduleWaiting_rescheduled {c : ComputedTokens} {t : EncoderPlan}
    (hrun : s.scheduleWaiting cfg p id c t = .ok (s', p')) : Rescheduled s s' := by
  obtain ⟨p₁, -, hrun⟩ := bind_eq_ok.mp hrun
  obtain ⟨s₁, hencoder, hrun⟩ := bind_eq_ok.mp hrun
  cases hrun
  have hrunning : Rescheduled s { s with running := s.running ++ [id] } := rescheduled_of_request rfl
  refine Rescheduled.trans ?_ (allocateEncoder_untouched hencoder).rescheduled
  exact hrunning.modify ⟨_, _, _, _, _, _, _, _, _, rfl⟩

theorem WaitStep.rescheduled {x y : Scheduler β × Plan × List Nat} (hstep : WaitStep cfg x y) :
    Rescheduled x.1 y.1 := by
  cases hstep with
  | visit hvisit => exact hvisit.rescheduled
  | skip hskip => exact skipWaiting_rescheduled hskip
  | @load s s' _ id _ _ _ _ _ hskip =>
    have hone : Rescheduled s s' := skipWaiting_rescheduled hskip
    show Rescheduled s (s'.modify id fun r => { r with status := .waitingForRemoteKvs })
    exact hone.modify ⟨_, _, _, _, _, _, _, _, _, rfl⟩
  | accept _ hpop hschedule => exact (popWaiting_rescheduled hpop).trans (scheduleWaiting_rescheduled hschedule)

section

variable [DecidableEq β]

theorem scheduleWaitingReqs_rescheduled (hrun : s.scheduleWaitingReqs cfg env p = .ok (s', p')) : Rescheduled s s' := by
  obtain ⟨s₁, skipped, hsteps, rfl, -⟩ := scheduleWaitingReqs_steps hrun
  exact holds_of_steps (R := fun x y => Rescheduled x.1 y.1) (fun _ => .refl _) .trans WaitStep.rescheduled hsteps

/-! ## Running requests -/

theorem AllocateStep.rescheduled {x y : Scheduler β × Plan} (hstep : AllocateStep cfg x y) : Rescheduled x.1 y.1 := by
  cases hstep with
  | slots halloc => exact (allocateSlots_untouched halloc).rescheduled
  | preempt hpop hpreempt =>
    refine Rescheduled.trans ?_ (preemptRequest_rescheduled hpreempt)
    rcases popPreempted_cases hpop with ⟨-, -, rfl, -⟩ | ⟨-, -, rfl, -⟩
    · exact rescheduled_of_request rfl
    · exact rescheduled_of_request rfl

theorem RunStep.rescheduled {x y : Scheduler β × Plan} (hstep : RunStep cfg env x y) : Rescheduled x.1 y.1 := by
  cases hstep with
  | encode hplan => exact (planEncoder_untouched hplan).rescheduled
  | allocate hstep => exact hstep.rescheduled
  | schedule hschedule => exact (scheduleRunning_steps hschedule).rescheduled

/-! ## A step -/

theorem schedule_rescheduled {output : SchedulerOutput} (hrun : s.schedule cfg env = .ok (output, s')) :
    Rescheduled s s' := by
  obtain ⟨s₁, s₂, s₃, p₁, p₂, p, n, hrunning, -, hwaiting, -, hout, rfl⟩ := schedule_parts hrun
  have hloop : Rescheduled s s₁ :=
    holds_of_steps (R := fun x y => Rescheduled x.1 y.1) (fun _ => .refl _) .trans RunStep.rescheduled
      (runningLoop_steps hrunning)
  have hplanned := hloop.trans (scheduleWaitingReqs_rescheduled hwaiting)
  have hmade := hplanned.trans (makeOutput_untouched hout).rescheduled
  exact hmade.trans (updateAfterSchedule_steps cfg s₃ output).rescheduled

end

/-! ## Around the loop of `update_from_output` -/

theorem failKvLoads_rescheduled {requestFinished : Nat → Bool} {failed : List Nat}
    (hrun : s.failKvLoads cfg requestFinished failed = .ok s') : Rescheduled s s' := by
  unfold failKvLoads at hrun
  split at hrun
  · cases hrun
    exact .refl s
  · exact finishRequests_rescheduled hrun

theorem updateFromKvXferFinished_rescheduled {k : KVConnectorOutput}
    (hrun : s.updateFromKvXferFinished cfg k = .ok s') : Rescheduled s s' := by
  obtain ⟨s₁, hrecving, hrun⟩ := bind_eq_ok.mp hrun
  refine (holds_of_foldlM (R := Rescheduled) .refl .trans ?_ hrecving).trans (holds_of_foldlM .refl .trans ?_ hrun)
  · intro s id s' hstep
    obtain ⟨_, -, hstep⟩ := bind_eq_ok.mp hstep
    split at hstep
    · cases hstep
      exact rescheduled_of_request rfl
    · obtain ⟨_, -, hstep⟩ := bind_eq_ok.mp hstep
      exact freeBlocks_rescheduled hstep
  · intro s id s' hstep
    obtain ⟨_, -, hstep⟩ := bind_eq_ok.mp hstep
    exact freeBlocks_rescheduled hstep

end Scheduler
end Yuan.Core
