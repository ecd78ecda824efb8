import Mathlib.Algebra.BigOperators.Group.Multiset.Basic
import Mathlib.Algebra.Order.BigOperators.Group.Multiset
import Mathlib.Data.Multiset.AddSub
import Yuan.Core.EncoderDecoderCache

/-!
# Runs of encoder-decoder requests

What the scheduler does to the slots of encoder-decoder requests, one call of a step after the other: it plans the
inputs of a request, may preempt others, allocates what is planned or gives up, and goes through the scheduled
requests at the end of the step. In between, requests arrive, finish and are aborted.

Nothing guards the slots that are freed. They stay right as long as inputs are freed only in the step that
allocated them.
-/

namespace Yuan.Core.EncoderDecoderRuns

/-- What the scheduler knows of a request. -/
structure EncoderDecoderRequest where
  mmFeatures : List MultiModalFeatureSpec
  numComputedTokens : Int := 0
  running : Bool := false

/-- The inputs of a request. -/
def EncoderDecoderRequest.inputs (r : EncoderDecoderRequest) : List EncoderInput := r.mmFeatures.zipIdx

/-- The request at hand in a step, with its number of computed tokens and its plan. -/
structure Candidate where
  id : Nat
  numComputedTokens : Int
  plan : EncoderPlan

/-- The scheduler in the middle of a step, and the history of its inputs. `scheduledEncoderInputs` has the inputs to
load too; between steps it is empty, as are the scheduled tokens. -/
structure State where
  manager : EncoderDecoderCacheManager
  requests : Dict Nat EncoderDecoderRequest
  candidate : Option Candidate
  numScheduledTokens : Dict Nat Int
  scheduledEncoderInputs : Dict Nat (List EncoderInput)
  allocated : Multiset (Nat × EncoderInput)
  freed : Multiset (Nat × EncoderInput)

/-- Nothing has been requested. -/
def start (cacheSize : Nat) : State where
  manager := .init cacheSize
  requests := .empty
  candidate := none
  numScheduledTokens := .empty
  scheduledEncoderInputs := .empty
  allocated := 0
  freed := 0

/-- What happens. -/
inductive Op where
  | addRequest (id : Nat) (mmFeatures : List MultiModalFeatureSpec)
  /-- `_try_schedule_encoder_inputs` in one of the loops of `schedule`. -/
  | trySchedule (id : Nat) (numComputedTokens numNewTokens encoderComputeBudget : Int)
  /-- `_preempt_request`. -/
  | preempt (id : Nat)
  /-- The request at hand is not scheduled. -/
  | skip
  /-- A waiting request gets no slots of the KV cache. -/
  | noSlots
  /-- The request at hand is scheduled. -/
  | schedule
  | getFreedMmHashes
  /-- A request's turn in `_update_after_schedule`. -/
  | updateAfterSchedule (id : Nat)
  /-- `update_from_output` takes back rejected tokens. -/
  | reject (id : Nat) (numRejected : Nat)
  /-- `_free_request`: finished or aborted. -/
  | finish (id : Nat)
  /-- `reset_encoder_cache`. -/
  | reset

section Step

variable {β : Type} (cfg : SchedulerConfig β) (env : ScheduleEnv)

/-- A request of the scheduler. -/
def State.request (s : State) (id : Nat) : Except PyError EncoderDecoderRequest :=
  match s.requests.get? id with
  | some r => .ok r
  | none => .error (.keyError (toString id))

/-- Inputs with the id of their request. -/
def tagged (id : Nat) (inputs : List EncoderInput) : Multiset (Nat × EncoderInput) :=
  ((inputs.map fun input => (id, input) : List (Nat × EncoderInput)) : Multiset (Nat × EncoderInput))

/-- Inputs of a request have been freed. -/
def State.recordFreed (s : State) (id : Nat) (inputs : List EncoderInput) : State :=
  { s with freed := s.freed + tagged id inputs }

/-- `encoder_cache_manager.free(request)`. -/
def State.free (s : State) (id : Nat) (r : EncoderDecoderRequest) : State :=
  { s with manager := s.manager.free r.mmFeatures }.recordFreed id r.inputs

/-- `encoder_cache_manager.allocate` for each input of a plan. -/
def State.allocate (s : State) (id : Nat) (inputs : List EncoderInput) : State :=
  { s with
    manager := inputs.foldl (fun m input => m.allocate input.1) s.manager
    scheduledEncoderInputs := s.scheduledEncoderInputs.set id inputs
    allocated := s.allocated + tagged id inputs }

/-- One call. -/
def step (s : State) : Op → Except PyError State
  | .addRequest id mmFeatures => .ok { s with requests := s.requests.set id { mmFeatures } }
  | .trySchedule id numComputedTokens numNewTokens encoderComputeBudget => do
    let r ← s.request id
    let plan ← tryScheduleEncoderDecoderInputs cfg env id numComputedTokens (if cfg.useEagle then 1 else 0) s.manager
      r.mmFeatures { numNewTokens, encoderComputeBudget }
    return { s with candidate := some { id, numComputedTokens, plan } }
  | .preempt id => do
    let r ← s.request id
    let s := s.free id r
    return { s with
      requests := s.requests.set id { r with numComputedTokens := 0, running := false }
      numScheduledTokens := s.numScheduledTokens.erase id
      scheduledEncoderInputs := s.scheduledEncoderInputs.erase id }
  | .skip => .ok { s with candidate := none }
  | .noSlots =>
    match s.candidate with
    | none => .ok s
    | some c => do
      let r ← s.request c.id
      return { s.free c.id r with candidate := none }
  | .schedule =>
    match s.candidate with
    | none => .ok s
    | some c => do
      let r ← s.request c.id
      let s := s.allocate c.id c.plan.inputs
      return { s with
        requests := s.requests.set c.id { r with numComputedTokens := c.numComputedTokens, running := true }
        numScheduledTokens := s.numScheduledTokens.set c.id c.plan.numNewTokens
        candidate := none }
  | .getFreedMmHashes => .ok { s with manager := s.manager.getFreedMmHashes.2 }
  | .updateAfterSchedule id => do
    let r ← s.request id
    let numComputedTokens := r.numComputedTokens + (s.numScheduledTokens.get? id).getD 0
    let done := r.inputs.filter fun input =>
      decide (numComputedTokens > 0) || decide (input.1.stop ≤ numComputedTokens)
    let s := { s with manager := s.manager.freeEncoderInputs r.mmFeatures numComputedTokens }.recordFreed id done
    return { s with
      requests := s.requests.set id { r with numComputedTokens }
      numScheduledTokens := s.numScheduledTokens.erase id
      scheduledEncoderInputs := s.scheduledEncoderInputs.erase id }
  | .reject id numRejected => do
    let r ← s.request id
    return { s with requests := s.requests.set id { r with
      numComputedTokens := r.numComputedTokens - numRejected } }
  | .finish id => do
    let r ← s.request id
    let s := s.free id r
    return { s with requests := s.requests.erase id }
  | .reset => .ok { s with manager := s.manager.reset, allocated := 0, freed := 0 }

/-- Between two steps. -/
structure State.Idle (s : State) : Prop where
  candidate : s.candidate = none
  tokens : s.numScheduledTokens = .empty
  inputs : s.scheduledEncoderInputs = .empty

/-- What the scheduler sees to: a new request has a new id; a request is tried at most once in a step, a running one
from where it is; a request behind a step has computed tokens; and requests come and go between steps. -/
def Enabled (s : State) : Op → Prop
  | .addRequest id _ => s.Idle ∧ id ∉ s.requests.keys
  | .trySchedule id numComputedTokens _ _ =>
    s.candidate = none ∧ id ∉ s.numScheduledTokens.keys ∧
      ∀ r ∈ s.requests.get? id, r.running = true → r.numComputedTokens = numComputedTokens
  | .preempt id => ∀ r ∈ s.requests.get? id, r.running = true
  | .skip => True
  | .noSlots => True
  | .schedule => True
  | .getFreedMmHashes => s.candidate = none
  | .updateAfterSchedule id =>
    s.candidate = none ∧ ∃ n ∈ s.numScheduledTokens.get? id, ∀ r ∈ s.requests.get? id, 0 < r.numComputedTokens + n
  | .reject _ _ => s.Idle
  | .finish _ => s.Idle
  | .reset => s.Idle

/-- The inputs of a request were all scheduled in the step under way. -/
def State.ScheduledNow (s : State) (id : Nat) : Prop :=
  ∀ r ∈ s.requests.get? id, ∀ input ∈ r.inputs, input ∈ (s.scheduledEncoderInputs.get? id).getD []

/-- Where inputs are freed, they were scheduled in this step: a request that is preempted, or passed at the end of
the step, was scheduled in it with all its inputs, or has none; one that gets no slots, or finishes, has none. -/
def Meets (s : State) : Op → Prop
  | .preempt id => s.ScheduledNow id
  | .updateAfterSchedule id => s.ScheduledNow id
  | .noSlots => ∀ c ∈ s.candidate, ∀ r ∈ s.requests.get? c.id, r.mmFeatures = []
  | .finish id => ∀ r ∈ s.requests.get? id, r.mmFeatures = []
  | _ => True

/-- The states of the runs whose steps all meet a condition. -/
inductive ReachableWith (P : State → Op → Prop) (cacheSize : Nat) : State → Prop where
  | start : ReachableWith P cacheSize (start cacheSize)
  | step {s s' : State} {op : Op} (h : ReachableWith P cacheSize s) (henabled : Enabled s op) (hmeets : P s op)
      (hstep : step cfg env s op = .ok s') : ReachableWith P cacheSize s'

end Step

/-- The slots are in range, and those taken are those of the inputs allocated and not yet freed, each freed once. -/
structure Accounted (s : State) : Prop where
  nonneg : 0 ≤ s.manager.numFreeSlots
  le_size : s.manager.numFreeSlots ≤ s.manager.cacheSize
  freed_once : s.freed ≤ s.allocated
  taken : s.manager.cacheSize - s.manager.numFreeSlots = ((s.allocated - s.freed).map fun x => x.2.embeds).sum

/-! ## The invariant -/

theorem EncoderDecoderRequest.nodup_inputs (r : EncoderDecoderRequest) : r.inputs.Nodup := by
  exact EncoderDecoderCacheManager.nodup_getCachedInputIds r.mmFeatures

theorem mem_tagged {id : Nat} {inputs : List EncoderInput} {x : Nat × EncoderInput} :
    x ∈ tagged id inputs ↔ x.1 = id ∧ x.2 ∈ inputs := by
  unfold tagged
  rw [Multiset.mem_coe, List.mem_map]
  constructor
  · rintro ⟨input, hinput, rfl⟩
    exact ⟨rfl, hinput⟩
  · rintro ⟨rfl, hinput⟩
    exact ⟨x.2, hinput, rfl⟩

theorem tagged_embeds (id : Nat) (inputs : List EncoderInput) :
    ((tagged id inputs).map fun x => x.2.embeds).sum = (inputs.map EncoderInput.embeds).sum := by
  unfold tagged
  rw [Multiset.map_coe, Multiset.sum_coe, List.map_map]
  rfl

theorem tagged_perm {id : Nat} {inputs inputs' : List EncoderInput} (h : inputs.Perm inputs') :
    tagged id inputs = tagged id inputs' :=
  Multiset.coe_eq_coe.mpr (h.map _)

/-- The inputs scheduled in the step under way. -/
def State.outstanding (s : State) : Multiset (Nat × EncoderInput) := s.scheduledEncoderInputs.sum tagged

theorem mem_outstanding {s : State} {x : Nat × EncoderInput} (h : x ∈ s.outstanding) :
    x.2 ∈ (s.scheduledEncoderInputs.get? x.1).getD [] := by
  have hsum : ∀ l : List (Nat × List EncoderInput), x ∈ (l.map fun e => tagged e.1 e.2).sum →
      ∃ e ∈ l, x ∈ tagged e.1 e.2 := by
    intro l
    induction l with
    | nil => exact fun hx => absurd hx (Multiset.notMem_zero x)
    | cons e l ih =>
      intro hx
      rw [List.map_cons, List.sum_cons, Multiset.mem_add] at hx
      rcases hx with hx | hx
      · exact ⟨e, List.mem_cons_self, hx⟩
      · obtain ⟨e', he', hx'⟩ := ih hx
        exact ⟨e', List.mem_cons_of_mem _ he', hx'⟩
  obtain ⟨e, he, hx⟩ := hsum _ h
  obtain ⟨hid, hinput⟩ := mem_tagged.mp hx
  rw [hid, Dict.get?_eq_some.mpr he]
  exact hinput

/-- The candidate of a step: its plan names inputs of it, each once, and they fit. -/
structure CandidateOk (s : State) (c : Candidate) : Prop where
  new : c.id ∉ s.numScheduledTokens.keys
  nodup : c.plan.inputs.Nodup
  planned : ∃ r, s.requests.get? c.id = some r ∧ ∀ input ∈ c.plan.inputs, input ∈ r.inputs
  fits : (c.plan.inputs.map EncoderInput.embeds).sum ≤ s.manager.numFreeSlots

/-- What was allocated and not freed is what the step under way has scheduled. -/
structure Ok (s : State) : Prop where
  nonneg : 0 ≤ s.manager.numFreeSlots
  slots : s.manager.numFreeSlots + (s.outstanding.map fun x => x.2.embeds).sum = s.manager.cacheSize
  history : s.allocated = s.freed + s.outstanding
  scheduled : ∀ id ∈ s.scheduledEncoderInputs.keys, id ∈ s.numScheduledTokens.keys
  inputs : ∀ id inputs, s.scheduledEncoderInputs.get? id = some inputs →
    inputs.Nodup ∧ ∃ r, s.requests.get? id = some r ∧ ∀ input ∈ inputs, input ∈ r.inputs
  candidate : ∀ c ∈ s.candidate, CandidateOk s c

theorem outstanding_embeds_nonneg (s : State) : 0 ≤ (s.outstanding.map fun x => x.2.embeds).sum := by
  apply Multiset.sum_nonneg
  intro n hn
  obtain ⟨x, -, rfl⟩ := Multiset.mem_map.mp hn
  exact x.2.embeds_nonneg

theorem Ok.accounted {s : State} (h : Ok s) : Accounted s := by
  have hrest := outstanding_embeds_nonneg s
  have hslots := h.slots
  constructor
  case nonneg => exact h.nonneg
  case le_size => omega
  case freed_once =>
    rw [h.history]
    exact Multiset.le_add_right _ _
  case taken =>
    rw [h.history, add_tsub_cancel_left]
    omega

theorem ok_start (cacheSize : Nat) : Ok (start cacheSize) where
  nonneg := Int.natCast_nonneg _
  slots := Int.add_zero _
  history := rfl
  scheduled id hid := absurd hid List.not_mem_nil
  inputs id inputs hinputs := by cases hinputs
  candidate c hc := by cases hc

/-! ## What is freed -/

section Freed

variable {s s' : State} {id : Nat} {r : EncoderDecoderRequest}

/-- The inputs of a request that was scheduled with all of them. -/
theorem Ok.outstanding_eq (h : Ok s) (hr : s.requests.get? id = some r) (hnow : s.ScheduledNow id) :
    s.outstanding = (s.scheduledEncoderInputs.erase id).sum tagged + tagged id r.inputs := by
  have hsplit := Dict.sum_erase_getD s.scheduledEncoderInputs id [] tagged rfl
  have hall := hnow r hr
  have hperm : ((s.scheduledEncoderInputs.get? id).getD []).Perm r.inputs := by
    cases hget : s.scheduledEncoderInputs.get? id with
    | none =>
      rw [hget] at hall
      rw [List.eq_nil_iff_forall_not_mem.mpr fun input hinput => absurd (hall input hinput) List.not_mem_nil]
      exact List.Perm.refl _
    | some inputs =>
      rw [hget] at hall
      obtain ⟨hnodup, r', hr', hsub⟩ := h.inputs id inputs hget
      rw [hr] at hr'
      cases hr'
      exact (List.perm_ext_iff_of_nodup hnodup r.nodup_inputs).mpr fun input => ⟨hsub input, hall input⟩
  unfold State.outstanding
  rw [← hsplit, tagged_perm hperm]

/-- An input that the step did not schedule has no allocation left to free. -/
theorem Ok.not_freed_once (h : Ok s) (hr : s.requests.get? id = some r) (hnot : ¬ s.ScheduledNow id) :
    ¬ s.freed + tagged id r.inputs ≤ s.allocated := by
  unfold State.ScheduledNow at hnot
  push Not at hnot
  obtain ⟨r', hr', input, hinput, hunscheduled⟩ := hnot
  rw [hr] at hr'
  cases hr'
  intro hle
  have hcount := Multiset.le_iff_count.mp hle (id, input)
  have hzero : s.outstanding.count (id, input) = 0 :=
    Multiset.count_eq_zero.mpr fun hmem => hunscheduled (mem_outstanding hmem)
  have hone : 0 < (tagged id r.inputs).count (id, input) :=
    Multiset.count_pos.mpr (mem_tagged.mpr ⟨rfl, hinput⟩)
  rw [h.history, Multiset.count_add, Multiset.count_add] at hcount
  omega

theorem free_slots (m : EncoderDecoderCacheManager) (r : EncoderDecoderRequest) :
    (m.free r.mmFeatures).numFreeSlots = m.numFreeSlots + (r.inputs.map EncoderInput.embeds).sum ∧
      (m.free r.mmFeatures).cacheSize = m.cacheSize := by
  rw [EncoderDecoderCacheManager.free_eq]
  exact ⟨rfl, rfl⟩

theorem free_slots_le (m : EncoderDecoderCacheManager) (r : EncoderDecoderRequest) :
    m.numFreeSlots ≤ (m.free r.mmFeatures).numFreeSlots := by
  have hsum : 0 ≤ (r.inputs.map EncoderInput.embeds).sum := by
    apply List.sum_nonneg
    intro n hn
    obtain ⟨input, -, rfl⟩ := List.mem_map.mp hn
    exact input.embeds_nonneg
  rw [(free_slots m r).1]
  omega

/-- All inputs of a request are freed; it leaves the step. -/
structure FreesAll (s s' : State) (id : Nat) (r : EncoderDecoderRequest) : Prop where
  manager : s'.manager = s.manager.free r.mmFeatures
  freed : s'.freed = s.freed + tagged id r.inputs
  allocated : s'.allocated = s.allocated
  scheduled : s'.scheduledEncoderInputs = s.scheduledEncoderInputs.erase id
  tokens : ∀ k ∈ s.numScheduledTokens.keys, k ≠ id → k ∈ s'.numScheduledTokens.keys
  requests : ∀ k, k ≠ id → s'.requests.get? k = s.requests.get? k

theorem Ok.freesAll (h : Ok s) (hr : s.requests.get? id = some r) (hnow : s.ScheduledNow id)
    (hfrees : FreesAll s s' id r) (hcandidate : ∀ c ∈ s'.candidate, CandidateOk s' c) : Ok s' := by
  have hout := h.outstanding_eq hr hnow
  have hout' : s'.outstanding = (s.scheduledEncoderInputs.erase id).sum tagged := by
    unfold State.outstanding
    rw [hfrees.scheduled]
  have hle := free_slots_le s.manager r
  have hnonneg := h.nonneg
  obtain ⟨hslots, hsize⟩ := free_slots s.manager r
  constructor
  case nonneg =>
    rw [hfrees.manager]
    omega
  case slots =>
    have hbefore := h.slots
    rw [hout, Multiset.map_add, Multiset.sum_add, tagged_embeds] at hbefore
    rw [hfrees.manager, hslots, hsize, hout', ← hbefore]
    ring
  case history => rw [hfrees.allocated, hfrees.freed, hout', h.history, hout, add_assoc, add_comm (tagged _ _)]
  case scheduled =>
    intro k hk
    rw [hfrees.scheduled, Dict.mem_keys_erase] at hk
    exact hfrees.tokens k (h.scheduled k hk.2) hk.1
  case inputs =>
    intro k inputs hk
    rw [hfrees.scheduled, Dict.get?_erase] at hk
    split_ifs at hk with hne
    rw [hfrees.requests k hne]
    exact h.inputs k inputs hk
  case candidate => exact hcandidate

/-- The books are not right if the inputs were not scheduled in this step. -/
theorem Ok.freesAll_accounted (h : Ok s) (hr : s.requests.get? id = some r) (hfrees : FreesAll s s' id r)
    (hacc : Accounted s') : s.ScheduledNow id := by
  by_contra hnot
  apply h.not_freed_once hr hnot
  rw [← hfrees.freed, ← hfrees.allocated]
  exact hacc.freed_once

end Freed

/-! ## The steps -/

section Steps

variable {β : Type} {cfg : SchedulerConfig β} {env : ScheduleEnv} {s s' : State} {op : Op} {c : Candidate}

theorem request_eq_ok {id : Nat} {r : EncoderDecoderRequest} : s.request id = .ok r ↔ s.requests.get? id = some r := by
  unfold State.request
  cases s.requests.get? id with
  | none => exact iff_of_false (fun h => by cases h) (fun h => by cases h)
  | some r' => exact ⟨fun h => congrArg some (Except.ok.inj h), fun h => congrArg Except.ok (Option.some.inj h)⟩

/-- A candidate stays one while slots are freed. -/
theorem CandidateOk.mono (h : CandidateOk s c)
    (htokens : ∀ k ∈ s'.numScheduledTokens.keys, k ∈ s.numScheduledTokens.keys)
    (hrequests : ∀ r, s.requests.get? c.id = some r →
      ∃ r', s'.requests.get? c.id = some r' ∧ r'.mmFeatures = r.mmFeatures)
    (hslots : s.manager.numFreeSlots ≤ s'.manager.numFreeSlots) : CandidateOk s' c where
  new hid := h.new (htokens c.id hid)
  nodup := h.nodup
  planned := by
    obtain ⟨r, hr, hplanned⟩ := h.planned
    obtain ⟨r', hr', hfeatures⟩ := hrequests r hr
    refine ⟨r', hr', fun input hinput => ?_⟩
    unfold EncoderDecoderRequest.inputs
    rw [hfeatures]
    exact hplanned input hinput
  fits := h.fits.trans hslots

theorem requests_set {id k : Nat} {r r' : EncoderDecoderRequest} (hr : s.requests.get? id = some r)
    (hfeatures : r'.mmFeatures = r.mmFeatures) :
    ∀ q, s.requests.get? k = some q → ∃ q', (s.requests.set id r').get? k = some q' ∧ q'.mmFeatures = q.mmFeatures := by
  intro q hq
  by_cases hk : k = id
  · subst hk
    rw [hr] at hq
    cases hq
    exact ⟨r', Dict.get?_set_self _ _ _, hfeatures⟩
  · exact ⟨q, by rw [Dict.get?_set_of_ne _ _ hk, hq], rfl⟩

/-- A call that moves no slots and keeps the inputs of the requests. -/
theorem Ok.sameSlots (h : Ok s) (hslots : s'.manager.numFreeSlots = s.manager.numFreeSlots)
    (hsize : s'.manager.cacheSize = s.manager.cacheSize) (hallocated : s'.allocated = s.allocated)
    (hfreed : s'.freed = s.freed) (hscheduled : s'.scheduledEncoderInputs = s.scheduledEncoderInputs)
    (htokens : s'.numScheduledTokens = s.numScheduledTokens)
    (hrequests : ∀ k r, s.requests.get? k = some r → ∃ r', s'.requests.get? k = some r' ∧ r'.mmFeatures = r.mmFeatures)
    (hcandidate : ∀ c ∈ s'.candidate, CandidateOk s' c) : Ok s' := by
  have hout : s'.outstanding = s.outstanding := by
    unfold State.outstanding
    rw [hscheduled]
  constructor
  case nonneg =>
    rw [hslots]
    exact h.nonneg
  case slots =>
    rw [hslots, hsize, hout]
    exact h.slots
  case history =>
    rw [hallocated, hfreed, hout]
    exact h.history
  case scheduled =>
    rw [hscheduled, htokens]
    exact h.scheduled
  case inputs =>
    intro id inputs hinputs
    rw [hscheduled] at hinputs
    obtain ⟨hnodup, r, hr, hsub⟩ := h.inputs id inputs hinputs
    obtain ⟨r', hr', hfeatures⟩ := hrequests id r hr
    refine ⟨hnodup, r', hr', fun input hinput => ?_⟩
    unfold EncoderDecoderRequest.inputs
    rw [hfeatures]
    exact hsub input hinput
  case candidate => exact hcandidate

/-- The planned inputs of a candidate are allocated. -/
theorem Ok.schedule (h : Ok s) (hc : s.candidate = some c) {r : EncoderDecoderRequest}
    (hr : s.requests.get? c.id = some r) (r' : EncoderDecoderRequest) (hfeatures : r'.mmFeatures = r.mmFeatures)
    (numNewTokens : Int) : Ok { s.allocate c.id c.plan.inputs with
      requests := s.requests.set c.id r'
      numScheduledTokens := s.numScheduledTokens.set c.id numNewTokens
      candidate := none } := by
  have hcandidate := h.candidate c hc
  have hnew : c.id ∉ s.scheduledEncoderInputs.keys := fun hid => hcandidate.new (h.scheduled c.id hid)
  obtain ⟨hslots, hsize⟩ := EncoderDecoderCacheManager.allocateAll c.plan.inputs s.manager
  have hout : (s.scheduledEncoderInputs.set c.id c.plan.inputs).sum tagged =
      s.outstanding + tagged c.id c.plan.inputs := by
    have hadd := Dict.sum_erase_add (Dict.get?_set_self s.scheduledEncoderInputs c.id c.plan.inputs) tagged
    rw [Dict.erase_set, Dict.erase_of_not_mem hnew] at hadd
    exact hadd.symm
  constructor
  case nonneg =>
    show 0 ≤ (c.plan.inputs.foldl (fun m input => m.allocate input.1) s.manager).numFreeSlots
    have hfits := hcandidate.fits
    omega
  case slots =>
    show (c.plan.inputs.foldl (fun m input => m.allocate input.1) s.manager).numFreeSlots +
      (((s.scheduledEncoderInputs.set c.id c.plan.inputs).sum tagged).map fun x => x.2.embeds).sum =
      (c.plan.inputs.foldl (fun m input => m.allocate input.1) s.manager).cacheSize
    rw [hslots, hsize, hout, Multiset.map_add, Multiset.sum_add, tagged_embeds, ← h.slots]
    ring
  case history =>
    show s.allocated + tagged c.id c.plan.inputs =
      s.freed + (s.scheduledEncoderInputs.set c.id c.plan.inputs).sum tagged
    rw [hout, h.history, add_assoc]
  case scheduled =>
    intro id hid
    rcases Dict.mem_keys_set.mp hid with rfl | hid
    · exact Dict.mem_keys_set.mpr (.inl rfl)
    · exact Dict.mem_keys_set.mpr (.inr (h.scheduled id hid))
  case inputs =>
    intro id inputs hinputs
    replace hinputs : (s.scheduledEncoderInputs.set c.id c.plan.inputs).get? id = some inputs := hinputs
    have hkeep : ∀ q, s.requests.get? id = some q → ∃ q', (s.requests.set c.id r').get? id = some q' ∧
        q'.mmFeatures = q.mmFeatures := requests_set hr hfeatures
    obtain ⟨hnodup, q, hq, hsub⟩ :
        inputs.Nodup ∧ ∃ q, s.requests.get? id = some q ∧ ∀ input ∈ inputs, input ∈ q.inputs := by
      by_cases hid : id = c.id
      · subst hid
        rw [Dict.get?_set_self] at hinputs
        cases hinputs
        exact ⟨hcandidate.nodup, hcandidate.planned⟩
      · rw [Dict.get?_set_of_ne _ _ hid] at hinputs
        exact h.inputs id inputs hinputs
    obtain ⟨q', hq', hsame⟩ := hkeep q hq
    refine ⟨hnodup, q', hq', fun input hinput => ?_⟩
    unfold EncoderDecoderRequest.inputs
    rw [hsame]
    exact hsub input hinput
  case candidate => exact fun c hc => by cases hc

theorem preempt_freesAll {id : Nat} (hstep : step cfg env s (.preempt id) = .ok s') :
    ∃ r, s.requests.get? id = some r ∧ FreesAll s s' id r ∧
      (∀ c ∈ s.candidate, CandidateOk s c → CandidateOk s' c) ∧ s'.candidate = s.candidate := by
  obtain ⟨r, hr, hstep⟩ := bind_eq_ok.mp hstep
  have hr := request_eq_ok.mp hr
  cases hstep
  refine ⟨r, hr, ⟨rfl, rfl, rfl, rfl, ?_, ?_⟩, ?_, rfl⟩
  · exact fun k hk hne => Dict.mem_keys_erase.mpr ⟨hne, hk⟩
  · exact fun k hne => Dict.get?_set_of_ne _ _ hne
  · exact fun c _ hc => hc.mono (fun k hk => (Dict.mem_keys_erase.mp hk).2) (requests_set hr rfl)
      (free_slots_le s.manager r)

theorem updateAfterSchedule_freesAll {id : Nat} (henabled : Enabled s (.updateAfterSchedule id))
    (hstep : step cfg env s (.updateAfterSchedule id) = .ok s') :
    ∃ r, s.requests.get? id = some r ∧ FreesAll s s' id r ∧ s'.candidate = none := by
  obtain ⟨r, hr, hstep⟩ := bind_eq_ok.mp hstep
  have hr := request_eq_ok.mp hr
  cases hstep
  obtain ⟨hcandidate, n, hn, hpos⟩ := henabled
  replace hpos := hpos r hr
  have hall : (r.inputs.filter fun input => decide (r.numComputedTokens + n > 0) ||
      decide (input.1.stop ≤ r.numComputedTokens + n)) = r.inputs := by
    rw [List.filter_eq_self]
    intro input _
    rw [decide_eq_true hpos, Bool.true_or]
  refine ⟨r, hr, ⟨?_, ?_, rfl, rfl, ?_, ?_⟩, hcandidate⟩
  · show s.manager.freeEncoderInputs r.mmFeatures (r.numComputedTokens + (s.numScheduledTokens.get? id).getD 0) =
      s.manager.free r.mmFeatures
    rw [hn]
    exact EncoderDecoderCacheManager.freeEncoderInputs_eq _ _ hpos
  · show s.freed + tagged id (r.inputs.filter fun input =>
      decide (r.numComputedTokens + (s.numScheduledTokens.get? id).getD 0 > 0) ||
        decide (input.1.stop ≤ r.numComputedTokens + (s.numScheduledTokens.get? id).getD 0)) = _
    rw [hn, Option.getD_some, hall]
  · exact fun k hk hne => Dict.mem_keys_erase.mpr ⟨hne, hk⟩
  · exact fun k hne => Dict.get?_set_of_ne _ _ hne

theorem noSlots_freesAll (h : Ok s) (hc : s.candidate = some c) (hstep : step cfg env s .noSlots = .ok s') :
    ∃ r, s.requests.get? c.id = some r ∧ FreesAll s s' c.id r ∧ s'.candidate = none := by
  have hnew : c.id ∉ s.scheduledEncoderInputs.keys := fun hid => (h.candidate c hc).new (h.scheduled c.id hid)
  dsimp only [step] at hstep
  rw [hc] at hstep
  obtain ⟨r, hr, hstep⟩ := bind_eq_ok.mp hstep
  cases hstep
  refine ⟨r, request_eq_ok.mp hr, ⟨rfl, rfl, rfl, ?_, fun k hk _ => hk, fun k _ => rfl⟩, rfl⟩
  exact (Dict.erase_of_not_mem hnew).symm

theorem finish_freesAll {id : Nat} (henabled : Enabled s (.finish id)) (hstep : step cfg env s (.finish id) = .ok s') :
    ∃ r, s.requests.get? id = some r ∧ FreesAll s s' id r ∧ s'.candidate = none := by
  have hidle : s.Idle := henabled
  obtain ⟨r, hr, hstep⟩ := bind_eq_ok.mp hstep
  cases hstep
  refine ⟨r, request_eq_ok.mp hr, ⟨rfl, rfl, rfl, ?_, fun k hk _ => hk, ?_⟩, hidle.candidate⟩
  · show s.scheduledEncoderInputs = s.scheduledEncoderInputs.erase id
    rw [hidle.inputs]
    rfl
  · exact fun k hne => Dict.get?_erase_of_ne _ hne

/-- Where nothing of a request is scheduled, it was scheduled with all its inputs only if it has none. -/
theorem scheduledNow_iff {id : Nat} {r : EncoderDecoderRequest} (hr : s.requests.get? id = some r)
    (hnone : s.scheduledEncoderInputs.get? id = none) : s.ScheduledNow id ↔ r.mmFeatures = [] := by
  unfold State.ScheduledNow
  rw [hr, hnone]
  constructor
  · intro h
    have hnil : r.inputs = [] := List.eq_nil_iff_forall_not_mem.mpr fun input hinput =>
      absurd (h r rfl input hinput) List.not_mem_nil
    exact List.zipIdx_eq_nil_iff.mp hnil
  · intro hnil r' hr' input hinput
    cases hr'
    unfold EncoderDecoderRequest.inputs at hinput
    rw [hnil] at hinput
    exact absurd hinput List.not_mem_nil

theorem trySchedule_ok (h : Ok s) {id : Nat} {numComputedTokens numNewTokens encoderComputeBudget : Int}
    (henabled : Enabled s (.trySchedule id numComputedTokens numNewTokens encoderComputeBudget))
    (hstep : step cfg env s (.trySchedule id numComputedTokens numNewTokens encoderComputeBudget) = .ok s') :
    Ok s' := by
  obtain ⟨r, hr, hstep⟩ := bind_eq_ok.mp hstep
  obtain ⟨plan, hplan, hstep⟩ := bind_eq_ok.mp hstep
  cases hstep
  obtain ⟨hnodup, hplanned, hfits⟩ := tryScheduleEncoderDecoderInputs_fits h.nonneg hplan
  refine h.sameSlots rfl rfl rfl rfl rfl rfl (fun _ r hr => ⟨r, hr, rfl⟩) fun c hc => ?_
  cases hc
  exact ⟨henabled.2.1, hnodup, ⟨r, request_eq_ok.mp hr, hplanned⟩, hfits⟩

theorem reset_ok (h : Ok s) (hidle : s.Idle) :
    Ok { s with manager := s.manager.reset, allocated := 0, freed := 0 } := by
  have hout : s.outstanding = 0 := by
    unfold State.outstanding
    rw [hidle.inputs, Dict.sum_empty]
  have hslots := h.slots
  rw [hout, Multiset.map_zero, Multiset.sum_zero, add_zero] at hslots
  constructor
  case nonneg =>
    show 0 ≤ s.manager.cacheSize
    rw [← hslots]
    exact h.nonneg
  case slots =>
    show s.manager.cacheSize + (s.outstanding.map fun x => x.2.embeds).sum = s.manager.cacheSize
    rw [hout, Multiset.map_zero, Multiset.sum_zero, add_zero]
  case history =>
    show (0 : Multiset (Nat × EncoderInput)) = 0 + s.outstanding
    rw [hout, add_zero]
  case scheduled => exact h.scheduled
  case inputs => exact h.inputs
  case candidate =>
    intro c hc
    rw [show s.candidate = none from hidle.candidate] at hc
    cases hc

/-- A step that meets the condition keeps the invariant. -/
theorem step_ok (h : Ok s) (henabled : Enabled s op) (hmeets : Meets s op) (hstep : step cfg env s op = .ok s') :
    Ok s' := by
  have hnocandidate : ∀ {s' : State}, s'.candidate = none → ∀ c ∈ s'.candidate, CandidateOk s' c := by
    intro s' hnone c hc
    rw [hnone] at hc
    cases hc
  cases op with
  | addRequest id mmFeatures =>
    obtain ⟨hidle, hnew⟩ := henabled
    cases hstep
    refine h.sameSlots rfl rfl rfl rfl rfl rfl (fun k r hr => ?_) (hnocandidate hidle.candidate)
    have hne : k ≠ id := by
      rintro rfl
      exact hnew (Dict.isSome_get?.mp (by rw [hr]; rfl))
    exact ⟨r, by rw [Dict.get?_set_of_ne _ _ hne, hr], rfl⟩
  | trySchedule id numComputedTokens numNewTokens encoderComputeBudget => exact trySchedule_ok h henabled hstep
  | preempt id =>
    obtain ⟨r, hr, hfrees, hcandidates, hsame⟩ := preempt_freesAll hstep
    refine h.freesAll hr hmeets hfrees fun c hc => ?_
    rw [hsame] at hc
    exact hcandidates c hc (h.candidate c hc)
  | skip =>
    cases hstep
    exact h.sameSlots rfl rfl rfl rfl rfl rfl (fun _ r hr => ⟨r, hr, rfl⟩) (hnocandidate rfl)
  | noSlots =>
    cases hc : s.candidate with
    | none =>
      dsimp only [step] at hstep
      rw [hc] at hstep
      exact Except.ok.inj hstep ▸ h
    | some c =>
      obtain ⟨r, hr, hfrees, hnone⟩ := noSlots_freesAll h hc hstep
      have hunscheduled : s.scheduledEncoderInputs.get? c.id = none :=
        Dict.get?_eq_none.mpr fun hid => (h.candidate c hc).new (h.scheduled c.id hid)
      exact h.freesAll hr ((scheduledNow_iff hr hunscheduled).mpr (hmeets c hc r hr)) hfrees (hnocandidate hnone)
  | schedule =>
    cases hc : s.candidate with
    | none =>
      dsimp only [step] at hstep
      rw [hc] at hstep
      exact Except.ok.inj hstep ▸ h
    | some c =>
      dsimp only [step] at hstep
      rw [hc] at hstep
      obtain ⟨r, hr, hstep⟩ := bind_eq_ok.mp hstep
      cases hstep
      exact h.schedule hc (request_eq_ok.mp hr)
        { r with numComputedTokens := c.numComputedTokens, running := true } rfl _
  | getFreedMmHashes =>
    cases hstep
    exact h.sameSlots rfl rfl rfl rfl rfl rfl (fun _ r hr => ⟨r, hr, rfl⟩) (hnocandidate henabled)
  | updateAfterSchedule id =>
    obtain ⟨r, hr, hfrees, hnone⟩ := updateAfterSchedule_freesAll henabled hstep
    exact h.freesAll hr hmeets hfrees (hnocandidate hnone)
  | reject id numRejected =>
    have hidle : s.Idle := henabled
    obtain ⟨r, hr, hstep⟩ := bind_eq_ok.mp hstep
    cases hstep
    exact h.sameSlots rfl rfl rfl rfl rfl rfl (fun _ => requests_set (request_eq_ok.mp hr) rfl)
      (hnocandidate hidle.candidate)
  | finish id =>
    have hidle : s.Idle := henabled
    obtain ⟨r, hr, hfrees, hnone⟩ := finish_freesAll henabled hstep
    have hunscheduled : s.scheduledEncoderInputs.get? id = none := by
      rw [hidle.inputs]
      rfl
    exact h.freesAll hr ((scheduledNow_iff hr hunscheduled).mpr (hmeets r hr)) hfrees (hnocandidate hnone)
  | reset =>
    cases hstep
    exact reset_ok h henabled

/-- The books are right after a step only if it meets the condition. -/
theorem meets_of_accounted (h : Ok s) (henabled : Enabled s op) (hstep : step cfg env s op = .ok s')
    (hacc : Accounted s') : Meets s op := by
  cases op with
  | preempt id =>
    obtain ⟨r, hr, hfrees, -⟩ := preempt_freesAll hstep
    exact h.freesAll_accounted hr hfrees hacc
  | updateAfterSchedule id =>
    obtain ⟨r, hr, hfrees, -⟩ := updateAfterSchedule_freesAll henabled hstep
    exact h.freesAll_accounted hr hfrees hacc
  | noSlots =>
    intro c hc r hr
    obtain ⟨r', hr', hfrees, -⟩ := noSlots_freesAll h hc hstep
    cases hr'.symm.trans hr
    have hunscheduled : s.scheduledEncoderInputs.get? c.id = none :=
      Dict.get?_eq_none.mpr fun hid => (h.candidate c hc).new (h.scheduled c.id hid)
    exact (scheduledNow_iff hr hunscheduled).mp (h.freesAll_accounted hr hfrees hacc)
  | finish id =>
    have hidle : s.Idle := henabled
    intro r hr
    obtain ⟨r', hr', hfrees, -⟩ := finish_freesAll henabled hstep
    cases hr'.symm.trans hr
    have hunscheduled : s.scheduledEncoderInputs.get? id = none := by
      rw [hidle.inputs]
      rfl
    exact (scheduledNow_iff hr hunscheduled).mp (h.freesAll_accounted hr hfrees hacc)
  | addRequest => exact trivial
  | trySchedule => exact trivial
  | skip => exact trivial
  | schedule => exact trivial
  | getFreedMmHashes => exact trivial
  | reject => exact trivial
  | reset => exact trivial

theorem ReachableWith.ok {cacheSize : Nat} (h : ReachableWith cfg env Meets cacheSize s) : Ok s := by
  induction h with
  | start => exact ok_start cacheSize
  | step _ henabled hmeets hstep ih => exact step_ok ih henabled hmeets hstep

end Steps

/-- In every run whose steps meet the condition the books are right, and they are right after the next step exactly if
it meets the condition too. -/
theorem encoderDecoder_slots {β : Type} {cfg : SchedulerConfig β} {env : ScheduleEnv} {cacheSize : Nat} {s : State}
    (h : ReachableWith cfg env Meets cacheSize s) :
    Accounted s ∧ ∀ op s', Enabled s op → step cfg env s op = .ok s' → (Accounted s' ↔ Meets s op) :=
  ⟨h.ok.accounted, fun _ _ henabled hstep =>
    ⟨meets_of_accounted h.ok henabled hstep, fun hmeets => (step_ok h.ok henabled hmeets hstep).accounted⟩⟩

/-! ## A transcription -/

/-- A scheduler for transcriptions. -/
def transcribing : SchedulerConfig Nat where
  maxNumRunningReqs := 2
  maxNumScheduledTokens := 8
  disableChunkedMmInput := true
  maxNumEncoderInputTokens := 8
  kvCacheManager := KVCacheManager.windowOfTwo
  coordinator := .unitary false
  hashes := ⟨[], fun _ => [], fun _ => []⟩

/-- An input of four embeddings. -/
def audio : MultiModalFeatureSpec := ⟨"audio", ⟨0, 4, none⟩⟩

/-- The request with the input has arrived. -/
def arrived : State := { start 5 with requests := ⟨[(0, { mmFeatures := [audio] })], by decide⟩ }

theorem arrived_reachable {P : State → Op → Prop} (hP : ∀ s op, Meets s op → P s op) :
    ReachableWith transcribing {} P 5 arrived := by
  have hstart : ReachableWith transcribing {} P 5 (start 5) := .start
  have henabled : Enabled (start 5) (.addRequest 0 [audio]) := ⟨⟨rfl, rfl, rfl⟩, List.not_mem_nil⟩
  exact hstart.step henabled (hP _ _ trivial) rfl

/-- In its first step the request takes four of the five slots. -/
theorem encoderDecoder_slots_first_step :
    ∃ s s', step transcribing {} arrived (.trySchedule 0 0 1 8) = .ok s ∧ step transcribing {} s .schedule = .ok s' ∧
      s'.manager.numFreeSlots = 1 ∧ Accounted s' := by
  have htried : Enabled arrived (.trySchedule 0 0 1 8) :=
    ⟨rfl, List.not_mem_nil, fun r hr hrunning => by cases hr; cases hrunning⟩
  have hplanned := (arrived_reachable fun _ _ hmeets => hmeets).step htried trivial rfl
  have hscheduled : ∀ s, Enabled s .schedule := fun _ => trivial
  exact ⟨_, _, rfl, rfl, rfl, (encoderDecoder_slots (hplanned.step (hscheduled _) trivial rfl)).1⟩

/-- Aborted before it is scheduled, the request gives four slots back that it never took. -/
theorem encoderDecoder_slots_fails :
    ¬ ∀ {β : Type} (cfg : SchedulerConfig β) (env : ScheduleEnv) (cacheSize : Nat) (s : State),
      ReachableWith cfg env (fun _ _ => True) cacheSize s → Accounted s := by
  intro h
  have hreached : ReachableWith transcribing {} (fun _ _ => True) 5 arrived := arrived_reachable fun _ _ _ => trivial
  have haborted : Enabled arrived (.finish 0) := show arrived.Idle from ⟨rfl, rfl, rfl⟩
  have hacc := h transcribing {} 5 _ (hreached.step haborted trivial rfl)
  exact absurd hacc.le_size (by decide)

end Yuan.Core.EncoderDecoderRuns
