import Yuan.Core.SchedulerRuns

/-!
# The queues partition the live requests

`Partition` says where every request is: a running one in `self.running`, any other that is not
finished in `self.waiting`, once. It speaks about two lists and a number instead of the attributes of
the scheduler, because inside of a method the attributes are behind: a request that was skipped is in
neither queue for a while, and one that stopped stays in its queue until the end of the loop. For the
duration of the method, the lists are the queues as they will be.

A method changes one request at a time, so there is one rule, `Partition.change`, for where that
request goes.
-/

namespace Yuan.Core

variable {status : RequestStatus}

/-- Where a request belongs: in the waiting queue, where a session may wait for its input, in the
running list, or nowhere. -/
inductive Place where
  | queue
  | session
  | running
  | nowhere

/-- Where a request with this status belongs. -/
def RequestStatus.place : RequestStatus → Place
  | .running => .running
  | .waitingForStreamingReq => .session
  | status => if status.isFinished then .nowhere else .queue

theorem RequestStatus.place_eq_running : status.place = .running ↔ status = .running := by
  cases status <;> simp [place, isFinished]

theorem RequestStatus.place_eq_session : status.place = .session ↔ status = .waitingForStreamingReq := by
  cases status <;> simp [place, isFinished]

theorem RequestStatus.place_eq_nowhere : status.place = .nowhere ↔ status.isFinished = true := by
  cases status <;> simp [place, isFinished]

namespace Scheduler

variable {β : Type}

variable {s s' s'' : Scheduler β} {running running' waiting waiting' : List Nat} {n n' : Int}
variable {id : Nat}

/-- The queues and the dictionary are as before, and every request belongs where it did. -/
structure SamePlaces (s s' : Scheduler β) : Prop where
  requests : s'.requests = s.requests
  running : s'.running = s.running
  waiting : s'.waiting = s.waiting
  num : s'.numWaitingForStreamingInput = s.numWaitingForStreamingInput
  place : ∀ x, (s'.request x).status.place = (s.request x).status.place
  role : ∀ x, SameRole (s.request x) (s'.request x)

theorem SamePlaces.refl (s : Scheduler β) : SamePlaces s s :=
  ⟨rfl, rfl, rfl, rfl, fun _ => rfl, fun _ => .refl _⟩

theorem SamePlaces.trans (h : SamePlaces s s') (h' : SamePlaces s' s'') : SamePlaces s s'' :=
  ⟨h'.requests.trans h.requests, h'.running.trans h.running, h'.waiting.trans h.waiting,
    h'.num.trans h.num, fun x => (h'.place x).trans (h.place x), fun x => (h.role x).trans (h'.role x)⟩

@[simp] theorem modify_request_self (s : Scheduler β) (id : Nat)
    (f : Request (List β) → Request (List β)) : (s.modify id f).request id = f (s.request id) := by
  simp [modify]

theorem modify_request_of_ne (s : Scheduler β) {id x : Nat} (h : x ≠ id)
    (f : Request (List β) → Request (List β)) : (s.modify id f).request x = s.request x := by
  simp [modify, h]

/-- Nothing in the dictionary changed but the request `id`. -/
structure OnlyAt (id : Nat) (s s' : Scheduler β) : Prop where
  requests : s'.requests = s.requests
  others : ∀ x, x ≠ id → s'.request x = s.request x

theorem OnlyAt.trans (h : OnlyAt id s s') (h' : OnlyAt id s' s'') : OnlyAt id s s'' :=
  ⟨h'.requests.trans h.requests, fun x hx => (h'.others x hx).trans (h.others x hx)⟩

theorem onlyAt_modify (s : Scheduler β) (id : Nat) (f : Request (List β) → Request (List β)) :
    OnlyAt id s (s.modify id f) :=
  ⟨rfl, fun _ hx => modify_request_of_ne s hx f⟩

/-- Neither the queues changed. -/
structure OnlyRequest (id : Nat) (s s' : Scheduler β) : Prop extends OnlyAt id s s' where
  running : s'.running = s.running
  waiting : s'.waiting = s.waiting
  num : s'.numWaitingForStreamingInput = s.numWaitingForStreamingInput

theorem OnlyRequest.trans (h : OnlyRequest id s s') (h' : OnlyRequest id s' s'') : OnlyRequest id s s'' :=
  ⟨h.toOnlyAt.trans h'.toOnlyAt, h'.running.trans h.running, h'.waiting.trans h.waiting, h'.num.trans h.num⟩

theorem onlyRequest_modify (s : Scheduler β) (id : Nat) (f : Request (List β) → Request (List β)) :
    OnlyRequest id s (s.modify id f) :=
  ⟨onlyAt_modify s id f, rfl, rfl, rfl⟩

theorem OnlyRequest.samePlaces (h : OnlyRequest id s s')
    (hplace : (s'.request id).status.place = (s.request id).status.place)
    (hrole : SameRole (s.request id) (s'.request id)) : SamePlaces s s' := by
  refine ⟨h.requests, h.running, h.waiting, h.num, fun x => ?_, fun x => ?_⟩
  · by_cases hx : x = id
    · rw [hx, hplace]
    · rw [h.others x hx]
  · by_cases hx : x = id
    · rw [hx]
      exact hrole
    · rw [h.others x hx]
      exact .refl _

/-- A change of one request that leaves it where it belongs. -/
theorem samePlaces_modify (s : Scheduler β) (id : Nat) {f : Request (List β) → Request (List β)}
    (hplace : (f (s.request id)).status.place = (s.request id).status.place)
    (hrole : SameRole (s.request id) (f (s.request id))) : SamePlaces s (s.modify id f) := by
  apply (onlyRequest_modify s id f).samePlaces
  · rwa [modify_request_self]
  · rwa [modify_request_self]

/-! ## The partition -/

/-- A session that waits for input has none in its queue. -/
def AwaitsInput (r : Request β) : Prop := r.streamingQueue.getD [] = [] ∧ r.resumable = true

theorem AwaitsInput.congr {r r' : Request β} (h : AwaitsInput r) (hrole : SameRole r r') : AwaitsInput r' := by
  unfold AwaitsInput
  rw [hrole.streamingQueue, hrole.resumable]
  exact h

/-- A running request is in `running` once, any other that is not finished is in `waiting` once, and
`n` of them are sessions that wait for input. -/
structure Partition (s : Scheduler β) (running waiting : List Nat) (n : Int) : Prop where
  requests_nodup : s.requests.Nodup
  running_nodup : running.Nodup
  waiting_nodup : waiting.Nodup
  mem_running : ∀ id, id ∈ running ↔ id ∈ s.requests ∧ (s.request id).status = .running
  mem_waiting : ∀ id, id ∈ waiting ↔
    id ∈ s.requests ∧ (s.request id).isFinished = false ∧ (s.request id).status ≠ .running
  streaming : n = s.requests.countP fun id => (s.request id).status = .waitingForStreamingReq
  queue : ∀ id ∈ s.requests, (s.request id).status = .waitingForStreamingReq →
    AwaitsInput (s.request id)

/-- The partition by the queues of the scheduler. -/
abbrev Partitioned (s : Scheduler β) : Prop :=
  Partition s s.running s.waiting s.numWaitingForStreamingInput

section

variable (h : Partition s running waiting n)
include h

theorem Partition.perm (hr : running'.Perm running) (hw : waiting'.Perm waiting) : Partition s running' waiting' n :=
  ⟨h.requests_nodup, hr.nodup_iff.mpr h.running_nodup, hw.nodup_iff.mpr h.waiting_nodup,
    fun id => (hr.mem_iff).trans (h.mem_running id), fun id => (hw.mem_iff).trans (h.mem_waiting id),
    h.streaming, h.queue⟩

/-- The partition only reads the dictionary, where requests belong, and the streaming queues. -/
theorem Partition.congr (hrequests : s'.requests = s.requests)
    (hplace : ∀ x, (s'.request x).status.place = (s.request x).status.place)
    (hrole : ∀ x, SameRole (s.request x) (s'.request x)) : Partition s' running waiting n := by
  have hrun : ∀ x, (s'.request x).status = .running ↔ (s.request x).status = .running := fun x => by
    rw [← RequestStatus.place_eq_running, hplace, RequestStatus.place_eq_running]
  have hses : ∀ x, (s'.request x).status = .waitingForStreamingReq ↔
      (s.request x).status = .waitingForStreamingReq := fun x => by
    rw [← RequestStatus.place_eq_session, hplace, RequestStatus.place_eq_session]
  have hfin : ∀ x, (s'.request x).isFinished = (s.request x).isFinished := fun x => by
    rw [Bool.eq_iff_iff, Request.isFinished, ← RequestStatus.place_eq_nowhere, hplace,
      RequestStatus.place_eq_nowhere, Request.isFinished]
  refine ⟨hrequests ▸ h.requests_nodup, h.running_nodup, h.waiting_nodup, ?_, ?_, ?_, ?_⟩
  · simpa only [hrequests, hrun] using h.mem_running
  · simpa only [hrequests, ne_eq, hrun, hfin] using h.mem_waiting
  · simpa only [hrequests, hses] using h.streaming
  · intro x hx hs
    exact (h.queue x (hrequests ▸ hx) ((hses x).mp hs)).congr (hrole x)

theorem Partition.samePlaces (hs : SamePlaces s s') : Partition s' running waiting n :=
  h.congr hs.requests hs.place hs.role

end

theorem Partitioned.samePlaces (h : s.Partitioned) (hs : SamePlaces s s') : s'.Partitioned := by
  unfold Partitioned
  rw [hs.running, hs.waiting, hs.num]
  exact Partition.samePlaces h hs

theorem Partition.ne_of_mem (h : Partition s running waiting n) {x y : Nat} (hx : x ∈ running)
    (hy : y ∈ waiting) : x ≠ y := by
  rintro rfl
  exact ((h.mem_waiting x).mp hy).2.2 ((h.mem_running x).mp hx).2

/-- Counting with a predicate that changed at one place. -/
theorem countP_change {l : List Nat} (hl : l.Nodup) (hid : id ∈ l) {p q : Nat → Bool}
    (h : ∀ x, x ≠ id → p x = q x) :
    l.countP q + (if p id then 1 else 0) = l.countP p + (if q id then 1 else 0) := by
  have hperm := List.perm_cons_erase hid
  have hrest : (l.erase id).countP p = (l.erase id).countP q := by
    apply List.countP_congr
    intro x hx
    rw [h x]
    rintro rfl
    exact hl.not_mem_erase hx
  rw [hperm.countP_eq, hperm.countP_eq, List.countP_cons, List.countP_cons]
  omega

/-- How many of one request wait for input. -/
def streamingCount (r : Request β) : Int := if r.status = .waitingForStreamingReq then 1 else 0

/-- One request changes: it moves to where its new status belongs. -/
theorem Partition.change (h : Partition s running waiting n) (hid : id ∈ s.requests)
    (hc : OnlyAt id s s') (hrunning : running'.Nodup) (hwaiting : waiting'.Nodup)
    (hmr : ∀ x, x ∈ running' ↔
      (x ≠ id ∧ x ∈ running) ∨ (x = id ∧ (s'.request id).status = .running))
    (hmw : ∀ x, x ∈ waiting' ↔ (x ≠ id ∧ x ∈ waiting) ∨
      (x = id ∧ (s'.request id).isFinished = false ∧ (s'.request id).status ≠ .running))
    (hn : n' + streamingCount (s.request id) = n + streamingCount (s'.request id))
    (hqueue : (s'.request id).status = .waitingForStreamingReq →
      AwaitsInput (s'.request id)) :
    Partition s' running' waiting' n' where
  requests_nodup := hc.requests ▸ h.requests_nodup
  running_nodup := hrunning
  waiting_nodup := hwaiting
  mem_running := by
    intro x
    rw [hmr, hc.requests]
    by_cases hx : x = id
    · subst hx
      simp [hid]
    · simp [hx, h.mem_running, hc.others x hx]
  mem_waiting := by
    intro x
    rw [hmw, hc.requests]
    by_cases hx : x = id
    · subst hx
      simp [hid]
    · simp [hx, h.mem_waiting, hc.others x hx]
  streaming := by
    have hcount := countP_change h.requests_nodup hid
      (q := fun x => decide ((s'.request x).status = .waitingForStreamingReq))
      (fun x hx => by rw [hc.others x hx])
    have hold := h.streaming
    rw [hc.requests]
    unfold streamingCount at hn
    simp only [decide_eq_true_eq] at hcount
    split_ifs at hn hcount <;> omega
  queue := by
    intro x hx hst
    by_cases hxid : x = id
    · subst hxid
      exact hqueue hst
    · rw [hc.others x hxid] at hst ⊢
      exact h.queue x (hc.requests ▸ hx) hst

/-- A request that runs moves to the waiting queue. -/
theorem Partition.toWaiting (h : Partition s (id :: running) waiting n) (hc : OnlyAt id s s')
    (hfin : (s'.request id).isFinished = false) (hrun : (s'.request id).status ≠ .running)
    (hqueue : (s'.request id).status = .waitingForStreamingReq → AwaitsInput (s'.request id)) :
    Partition s' running (id :: waiting) (n + streamingCount (s'.request id)) := by
  have hst := ((h.mem_running id).mp List.mem_cons_self).2
  have hnot : id ∉ waiting := fun hw => h.ne_of_mem List.mem_cons_self hw rfl
  have hnodup := List.nodup_cons.mp h.running_nodup
  apply h.change ((h.mem_running id).mp List.mem_cons_self).1 hc hnodup.2
    (List.nodup_cons.mpr ⟨hnot, h.waiting_nodup⟩) _ _ _ hqueue
  · intro x
    grind
  · intro x
    grind
  · simp [streamingCount, hst]

/-- A waiting request starts to run. -/
theorem Partition.toRunning (h : Partition s running (id :: waiting) n) (hc : OnlyAt id s s')
    (hstreaming : (s.request id).status ≠ .waitingForStreamingReq)
    (hrun : (s'.request id).status = .running) : Partition s' (running ++ [id]) waiting n := by
  have hnot : id ∉ running := fun hr => h.ne_of_mem hr List.mem_cons_self rfl
  have hnodup := List.nodup_cons.mp h.waiting_nodup
  apply h.change ((h.mem_waiting id).mp List.mem_cons_self).1 hc _ hnodup.2
  · intro x
    grind
  · intro x
    grind
  · simp [streamingCount, hrun, hstreaming]
  · simp [hrun]
  · rw [List.nodup_append]
    grind [h.running_nodup]

section

variable (h : Partition s running waiting n)
include h

/-- A waiting request stays in the queue with another status. -/
theorem Partition.stayWaiting (hid : id ∈ waiting) (hc : OnlyAt id s s') (hfin : (s'.request id).isFinished = false)
    (hrun : (s'.request id).status ≠ .running)
    (hn : n' + streamingCount (s.request id) = n + streamingCount (s'.request id))
    (hqueue : (s'.request id).status = .waitingForStreamingReq →
      AwaitsInput (s'.request id)) : Partition s' running waiting n' := by
  apply h.change ((h.mem_waiting id).mp hid).1 hc h.running_nodup h.waiting_nodup _ _ hn hqueue
  · intro x
    have hne : x ∈ running → x ≠ id := fun hx => h.ne_of_mem hx hid
    grind
  · intro x
    grind

/-- A request that is finished leaves its queue. -/
theorem Partition.finish (hid : id ∈ s.requests) (hc : OnlyAt id s s') (hfin : (s'.request id).isFinished = true) :
    Partition s' (running.filter (· ≠ id)) (waiting.filter (· ≠ id)) (n - streamingCount (s.request id)) := by
  have hrun : (s'.request id).status ≠ .running := by
    intro heq
    simp [Request.isFinished, heq, RequestStatus.isFinished] at hfin
  have hstr : (s'.request id).status ≠ .waitingForStreamingReq := by
    intro heq
    simp [Request.isFinished, heq, RequestStatus.isFinished] at hfin
  apply h.change hid hc (h.running_nodup.filter _) (h.waiting_nodup.filter _)
  · intro x
    simp [hrun, and_comm]
  · intro x
    simp [hfin, and_comm]
  · simp [streamingCount, hstr]
  · simp [hstr]

/-- A new request enters the dictionary and the waiting queue. -/
theorem Partition.insert (hid : id ∉ s.requests) (hrequests : s'.requests = s.requests ++ [id])
    (hothers : ∀ x, x ≠ id → s'.request x = s.request x) (hfin : (s'.request id).isFinished = false)
    (hrun : (s'.request id).status ≠ .running) (hstreaming : (s'.request id).status ≠ .waitingForStreamingReq) :
    Partition s' running (id :: waiting) n := by
  have hsame : ∀ x ∈ s.requests, s'.request x = s.request x := fun x hx =>
    hothers x fun heq => hid (heq ▸ hx)
  refine ⟨?_, h.running_nodup, ?_, ?_, ?_, ?_, ?_⟩
  · rw [hrequests]
    grind [h.requests_nodup]
  · exact List.nodup_cons.mpr ⟨fun hw => hid ((h.mem_waiting id).mp hw).1, h.waiting_nodup⟩
  · intro x
    have hx := h.mem_running x
    grind
  · intro x
    have hx := h.mem_waiting x
    grind
  · rw [h.streaming, hrequests]
    have hcount : s.requests.countP (fun x => (s'.request x).status = .waitingForStreamingReq) =
        s.requests.countP fun x => (s.request x).status = .waitingForStreamingReq := by
      apply List.countP_congr
      intro x hx
      rw [hsame x hx]
    simp [hcount, hstreaming]
  · intro x hx
    rw [hrequests, List.mem_append, List.mem_singleton] at hx
    rcases hx with hx | rfl
    · rw [hsame x hx]
      exact h.queue x hx
    · intro hst
      exact absurd hst hstreaming

/-- A finished request leaves the dictionary. -/
theorem Partition.delete (hrequests : s'.requests = s.requests.erase id) (hrequest : s'.request = s.request)
    (hfin : (s.request id).isFinished = true) : Partition s' running waiting n := by
  have hmem : ∀ x, x ∈ s'.requests ↔ x ≠ id ∧ x ∈ s.requests := by
    intro x
    rw [hrequests, h.requests_nodup.mem_erase_iff]
  have hstatus : ∀ status, status.isFinished = false → (s.request id).status ≠ status := by
    rintro status hstatus rfl
    rw [Request.isFinished, hstatus] at hfin
    cases hfin
  refine ⟨hrequests ▸ h.requests_nodup.erase id, h.running_nodup, h.waiting_nodup, ?_, ?_, ?_, ?_⟩
  · intro x
    rw [hmem, h.mem_running]
    have hx : (s.request x).status = .running → x ≠ id := by
      rintro hst rfl
      exact hstatus .running rfl hst
    grind
  · intro x
    rw [hmem, h.mem_waiting]
    grind
  · rw [h.streaming, hrequests, hrequest, List.countP_erase]
    simp [hstatus .waitingForStreamingReq rfl]
  · intro x hx
    rw [hrequest]
    exact h.queue x ((hmem x).mp hx).2

end

/-! ## Finishing requests -/

variable {cfg : SchedulerConfig β} {requestFinished : Nat → Bool} {status : RequestStatus}

/-- The queues and the requests are as before; a request may have left the dictionary. -/
structure FreedOnly (id : Nat) (s s' : Scheduler β) : Prop where
  request : s'.request = s.request
  running : s'.running = s.running
  waiting : s'.waiting = s.waiting
  num : s'.numWaitingForStreamingInput = s.numWaitingForStreamingInput
  requests : s'.requests = s.requests ∨ s'.requests = s.requests.erase id

theorem FreedOnly.mem_of_ne (h : FreedOnly id s s') {x : Nat} (hx : x ≠ id) : x ∈ s'.requests ↔ x ∈ s.requests := by
  rcases h.requests with heq | heq <;> rw [heq]
  exact List.mem_erase_of_ne hx

theorem Partition.freedOnly (h : Partition s running waiting n) (hs : FreedOnly id s s')
    (hfin : (s.request id).isFinished = true) : Partition s' running waiting n := by
  rcases hs.requests with heq | heq
  · exact h.congr heq (fun x => by rw [hs.request]) fun x => by
      rw [hs.request]
      exact .refl _
  · exact h.delete heq hs.request hfin

theorem freeBlocks_spec (hrun : s.freeBlocks cfg id = .ok s') :
    (s.request id).isFinished = true ∧ FreedOnly id s s' := by
  obtain ⟨_, hfin, hrun⟩ := bind_eq_ok.mp hrun
  obtain ⟨kv, -, hrun⟩ := bind_eq_ok.mp hrun
  refine ⟨pyAssert_eq_ok.mp hfin, ?_⟩
  split at hrun
  case isTrue =>
    cases hrun
    exact ⟨rfl, rfl, rfl, rfl, Or.inr rfl⟩
  case isFalse => cases hrun

theorem connectorFinished_spec {delay : Bool}
    (hrun : s.connectorFinished cfg requestFinished id = .ok (delay, s')) :
    ∃ kv, s' = { s with kv } := by
  unfold connectorFinished at hrun
  split at hrun
  case h_1 =>
    cases hrun
    exact ⟨s.kv, rfl⟩
  case h_2 =>
    obtain ⟨kv, -, hrun⟩ := bind_eq_ok.mp hrun
    obtain ⟨_, -, hrun⟩ := bind_eq_ok.mp hrun
    cases hrun
    exact ⟨kv, rfl⟩

theorem freeRequest_spec {delay : Bool} (hrun : s.freeRequest cfg requestFinished id delay = .ok s') :
    (s.request id).isFinished = true ∧ FreedOnly id s s' := by
  obtain ⟨_, hfin, hrun⟩ := bind_eq_ok.mp hrun
  obtain ⟨⟨connectorDelay, s₁⟩, hconnector, hrun⟩ := bind_eq_ok.mp hrun
  obtain ⟨kv, rfl⟩ := connectorFinished_spec hconnector
  refine ⟨pyAssert_eq_ok.mp hfin, ?_⟩
  cases hdelay : delay || connectorDelay with
  | true =>
    simp only [hdelay] at hrun
    cases hrun
    exact ⟨rfl, rfl, rfl, rfl, Or.inl rfl⟩
  | false =>
    simp only [hdelay] at hrun
    obtain ⟨-, hfreed⟩ := freeBlocks_spec hrun
    exact ⟨hfreed.request, hfreed.running, hfreed.waiting, hfreed.num, hfreed.requests⟩

/-- Finishing one request changes its status, and may delete it. -/
theorem finishRequest_spec (hrun : s.finishRequest cfg requestFinished status id = .ok s') :
    ∃ s₁, OnlyAt id s s₁ ∧ (s₁.request id).status = status ∧ s₁.running = s.running ∧
      s₁.waiting = s.waiting ∧ s₁.numWaitingForStreamingInput = s.numWaitingForStreamingInput ∧
      (s₁.request id).isFinished = true ∧ FreedOnly id s₁ s' := by
  obtain ⟨hfin, hfreed⟩ := freeRequest_spec hrun
  refine ⟨(s.discardTransfer id).modify id fun r => { r with status }, ⟨rfl, fun x hx => ?_⟩, ?_,
    rfl, rfl, rfl, hfin, hfreed⟩
  · rw [modify_request_of_ne _ hx]
    rfl
  · rw [modify_request_self]

/-- In the middle of `finish_requests`: the queues are without the requests of `rest`, which are still
to be finished. -/
structure Finishing (s : Scheduler β) (rest : List Nat) : Prop where
  nodup : rest.Nodup
  mem : ∀ id ∈ rest, id ∈ s.requests
  partition : ∃ running waiting n, Partition s running waiting n ∧
    s.running = running.filter (· ∉ rest) ∧ s.waiting.Perm (waiting.filter (· ∉ rest)) ∧
    s.numWaitingForStreamingInput = n - (rest.map fun id => streamingCount (s.request id)).sum

/-- Leaving out one element and then others. -/
theorem filter_not_mem_cons (l rest : List Nat) (id : Nat) :
    (l.filter (· ≠ id)).filter (· ∉ rest) = l.filter (· ∉ id :: rest) := by
  rw [List.filter_filter]
  simp [Bool.and_comm]

theorem Finishing.step {rest : List Nat} (h : Finishing s (id :: rest))
    (hrun : s.finishRequest cfg requestFinished status id = .ok s') : Finishing s' rest := by
  obtain ⟨hnodup, hmem, running, waiting, n, hpart, hr, hw, hn⟩ := h
  obtain ⟨hnot, hnodup⟩ := List.nodup_cons.mp hnodup
  obtain ⟨s₁, hc, -, hr₁, hw₁, hn₁, hfin, hfreed⟩ := finishRequest_spec hrun
  have hsum : (rest.map fun x => streamingCount (s'.request x)) =
      rest.map fun x => streamingCount (s.request x) := by
    apply List.map_congr_left
    intro x hx
    rw [hfreed.request, hc.others x fun heq => hnot (heq ▸ hx)]
  refine ⟨hnodup, fun x hx => ?_, _, _, _,
    (hpart.finish (hmem id List.mem_cons_self) hc hfin).freedOnly hfreed hfin, ?_, ?_, ?_⟩
  · have hne : x ≠ id := fun heq => hnot (heq ▸ hx)
    rw [hfreed.mem_of_ne hne, hc.requests]
    exact hmem x (List.mem_cons_of_mem _ hx)
  · rw [hfreed.running, hr₁, hr, filter_not_mem_cons]
  · rw [hfreed.waiting, hw₁, filter_not_mem_cons]
    exact hw
  · rw [hfreed.num, hn₁, hn, hsum, List.map_cons, List.sum_cons]
    omega

theorem sum_streamingCount (s : Scheduler β) (l : List Nat) :
    (l.map fun id => streamingCount (s.request id)).sum =
      l.countP fun id => (s.request id).status = .waitingForStreamingReq := by
  induction l with
  | nil => rfl
  | cons x l ih =>
    rw [List.map_cons, List.sum_cons, ih, List.countP_cons, streamingCount]
    simp only [decide_eq_true_eq]
    split <;> omega

theorem mem_validRequests {requestIds : Option (List Nat)} {x : Nat}
    (hx : x ∈ s.validRequests requestIds) : x ∈ s.requests ∧ (s.request x).isFinished = false := by
  have h := (List.mem_filter.mp hx).2
  simpa using h

theorem validRequests_nodup (h : s.requests.Nodup) (requestIds : Option (List Nat)) :
    (s.validRequests requestIds).Nodup := by
  apply List.Nodup.filter
  cases requestIds with
  | none => exact h
  | some ids => exact List.nodup_dedup ids

/-- The first pass takes the valid requests out of the queues. -/
theorem finishing_removeFromQueues (h : s.Partitioned) {valid : List Nat} (hnodup : valid.Nodup)
    (hvalid : ∀ id ∈ valid, id ∈ s.requests ∧ (s.request id).isFinished = false) :
    Finishing (s.removeFromQueues cfg valid) valid := by
  refine ⟨hnodup, fun x hx => (hvalid x hx).1, s.running, s.waiting, s.numWaitingForStreamingInput,
    h.congr rfl (fun _ => rfl) fun _ => .refl _, ?_, ?_, ?_⟩
  · show removeAll s.running _ = _
    rw [removeAll_eq h.running_nodup]
    apply List.filter_congr
    intro x hx
    have hst := ((h.mem_running x).mp hx).2
    simp [hst]
  · have hfilter : s.waiting.filter
        (· ∉ valid.filter fun id => decide ((s.request id).status ≠ .running)) =
        s.waiting.filter (· ∉ valid) := by
      apply List.filter_congr
      intro x hx
      have hst := ((h.mem_waiting x).mp hx).2.2
      simp [hst]
    show List.Perm (if _ then _ else _) _
    rw [← hfilter]
    split
    case isTrue hnil =>
      rw [hnil]
      simp
    case isFalse => exact RequestQueue.removeRequests_perm _
  · show s.numWaitingForStreamingInput - _ = s.numWaitingForStreamingInput -
      (valid.map fun id => streamingCount (s.request id)).sum
    rw [sum_streamingCount]

/-- Behind the second pass, the queues are complete again. -/
theorem Finishing.run {rest : List Nat} (h : Finishing s rest)
    (hrun : rest.foldlM (fun s id => s.finishRequest cfg requestFinished status id) s = .ok s') : s'.Partitioned := by
  induction rest generalizing s with
  | nil =>
    cases hrun
    obtain ⟨-, -, running, waiting, n, hpart, hr, hw, hn⟩ := h
    simp only [List.not_mem_nil, not_false_eq_true, decide_true, List.filter_true, List.map_nil,
      List.sum_nil, sub_zero] at hr hw hn
    unfold Partitioned
    rw [hr, hn]
    exact hpart.perm (.refl _) hw
  | cons id rest ih =>
    obtain ⟨s₁, hone, hrun⟩ := bind_eq_ok.mp hrun
    exact ih (h.step hone) hrun

theorem Partitioned.finishRequests (h : s.Partitioned) {requestIds : Option (List Nat)}
    (hrun : s.finishRequests cfg requestFinished requestIds status = .ok s') : s'.Partitioned := by
  obtain ⟨_, -, hrun⟩ := bind_eq_ok.mp hrun
  exact (finishing_removeFromQueues h (validRequests_nodup h.requests_nodup requestIds)
    fun _ => mem_validRequests).run hrun

/-! ## Adding and preempting requests -/

/-- A session that gets input waits to be scheduled; its queue does not matter any more. -/
theorem updateRequestAsSession_spec {update : StreamingUpdate}
    (hrun : s.updateRequestAsSession cfg id update = .ok s') :
    OnlyAt id s s' ∧ (s'.request id).status = .waiting ∧ s'.running = s.running ∧
      s'.waiting = s.waiting ∧ s'.numWaitingForStreamingInput =
        s.numWaitingForStreamingInput - streamingCount (s.request id) := by
  obtain ⟨session, hsession, hrun⟩ := bind_eq_ok.mp hrun
  cases hrun
  refine ⟨⟨rfl, fun x hx => by simp [hx]⟩, ?_, rfl, rfl, ?_⟩
  · unfold Core.updateRequestAsSession at hsession
    split at hsession
    case h_1 => cases hsession
    case h_2 =>
      cases hsession
      simp
  · simp only [streamingCount]
    split <;> omega

theorem isFinished_of_status {r : Request β} (h : r.status = status) :
    r.isFinished = status.isFinished := by rw [Request.isFinished, h]

theorem Partitioned.addToSession (h : s.Partitioned) (hid : id ∈ s.requests) {update : Option StreamingUpdate}
    (hrun : s.addToSession cfg requestFinished id update = .ok s') : s'.Partitioned := by
  unfold Scheduler.addToSession at hrun
  split at hrun
  case isTrue hst =>
    -- one more entry in the streaming queue of a request that does not wait for it
    split at hrun
    case h_1 => cases hrun
    case h_2 queue hqueue =>
      cases hrun
      apply h.change hid (onlyAt_modify s id _) h.running_nodup h.waiting_nodup
      · intro x
        have hx := h.mem_running x
        rw [modify_request_self]
        grind
      · intro x
        have hx := h.mem_waiting x
        rw [modify_request_self]
        show x ∈ s.waiting ↔ _ ∨ (_ ∧ (s.request id).isFinished = false ∧ _)
        grind
      · rw [modify_request_self]
        rfl
      · rw [modify_request_self]
        intro hst'
        exact absurd hst' hst
  case isFalse hst =>
    have hst : (s.request id).status = .waitingForStreamingReq := not_not.mp hst
    have hwaiting : id ∈ s.waiting := by
      rw [h.mem_waiting, isFinished_of_status hst, hst]
      exact ⟨hid, rfl, by decide⟩
    split at hrun
    case h_1 update =>
      obtain ⟨hc, hst', hr, hw, hn⟩ := updateRequestAsSession_spec hrun
      unfold Partitioned
      rw [hr, hw]
      apply h.stayWaiting hwaiting hc
      · rw [isFinished_of_status hst']
        rfl
      · rw [hst']
        decide
      · rw [hn]
        simp [streamingCount, hst']
      · rw [hst']
        nofun
    case h_2 => exact h.finishRequests hrun

theorem Partitioned.addNewRequest (h : s.Partitioned) {request : Request (List β)}
    (hnew : request.IsNew cfg.hashes cfg.blockSize) (hid : request.requestId ∉ s.requests) :
    (s.addNewRequest cfg request).Partitioned := by
  have hst : ((s.addNewRequest cfg request).request request.requestId).status =
      if request.useStructuredOutput then .waitingForFsm else .waiting := by
    rw [← hnew.status]
    simp [Scheduler.addNewRequest, addWaiting]
  have hpart : Partition (s.addNewRequest cfg request) s.running (request.requestId :: s.waiting)
      s.numWaitingForStreamingInput := by
    apply h.insert hid rfl
    · intro x hx
      exact Function.update_of_ne hx _ _
    · rw [isFinished_of_status hst]
      split <;> rfl
    · rw [hst]
      split <;> decide
    · rw [hst]
      split <;> decide
  exact hpart.perm (.refl _) (RequestQueue.addRequest_perm _)

theorem Partitioned.addRequest (h : s.Partitioned) {request : Request (List β)}
    (hnew : request.IsNew cfg.hashes cfg.blockSize)
    (hrun : s.addRequest cfg requestFinished request = .ok s') : s'.Partitioned := by
  unfold Scheduler.addRequest at hrun
  split at hrun
  case isTrue hid => exact h.addToSession hid hrun
  case isFalse hid =>
    cases hrun
    exact h.addNewRequest hnew hid

theorem preemptRequest_spec (hrun : s.preemptRequest cfg id = .ok s') :
    (s.request id).status = .running ∧ OnlyAt id s s' ∧ (s'.request id).status = .preempted ∧
      s'.running = s.running ∧ s'.waiting.Perm (id :: s.waiting) ∧
      s'.numWaitingForStreamingInput = s.numWaitingForStreamingInput := by
  obtain ⟨_, hst, hrun⟩ := bind_eq_ok.mp hrun
  obtain ⟨kv, -, hrun⟩ := bind_eq_ok.mp hrun
  cases hrun
  refine ⟨by simpa using pyAssert_eq_ok.mp hst, ⟨rfl, fun x hx => ?_⟩, ?_, rfl,
    RequestQueue.prependRequest_perm id, rfl⟩
  · simp [prependWaiting, modify, hx]
  · simp [prependWaiting]

/-- Preempting a request that was taken out of `self.running`. -/
theorem Partition.preemptRequest (h : Partition s (id :: running) s.waiting n)
    (hrun : s.preemptRequest cfg id = .ok s') : Partition s' running s'.waiting n := by
  obtain ⟨hst, hc, hst', -, hw, -⟩ := preemptRequest_spec hrun
  have hpart := h.toWaiting hc (by rw [isFinished_of_status hst']; rfl) (by rw [hst']; decide)
    (by rw [hst']; nofun)
  have hzero : streamingCount (s'.request id) = 0 := by simp [streamingCount, hst']
  rw [hzero, add_zero] at hpart
  exact hpart.perm (.refl _) hw

/-- The last element goes to the front. -/
theorem perm_dropLast_cons {l : List Nat} {x : Nat} (h : l.getLast? = some x) : (x :: l.dropLast).Perm l := by
  obtain ⟨init, rfl⟩ := List.getLast?_eq_some_iff.mp h
  rw [List.dropLast_concat]
  exact (List.perm_append_singleton x init).symm

theorem Partitioned.preemptAll {fuel : Nat} (h : s.Partitioned)
    (hrun : Scheduler.preemptAll cfg fuel s = .ok s') : s'.Partitioned := by
  induction fuel generalizing s with
  | zero =>
    cases hrun
    exact h
  | succ fuel ih =>
    rw [Scheduler.preemptAll] at hrun
    split at hrun
    case h_1 =>
      cases hrun
      exact h
    case h_2 id hlast =>
      obtain ⟨s₁, hpreempt, hrun⟩ := bind_eq_ok.mp hrun
      have hpart : Partition { s with running := s.running.dropLast } (id :: s.running.dropLast)
          s.waiting s.numWaitingForStreamingInput :=
        (h.perm (perm_dropLast_cons hlast) (.refl _)).congr rfl (fun _ => rfl) fun _ => .refl _
      have hpart₁ := Partition.preemptRequest hpart hpreempt
      obtain ⟨-, -, hst, hr, -, hn⟩ := preemptRequest_spec hpreempt
      rw [← hn] at hpart₁
      apply ih _ hrun
      show Partition _ s₁.running s₁.waiting s₁.numWaitingForStreamingInput
      rw [hr]
      exact hpart₁.samePlaces (samePlaces_modify s₁ id rfl ⟨rfl, rfl, rfl⟩)

theorem Partitioned.resetPrefixCache (h : s.Partitioned) {resetRunningRequests successful : Bool}
    (hrun : s.resetPrefixCache cfg resetRunningRequests = .ok (successful, s')) : s'.Partitioned := by
  obtain ⟨s₁, hreset, hrun⟩ := bind_eq_ok.mp hrun
  have h₁ : s₁.Partitioned := by
    unfold resetRunning at hreset
    split at hreset
    case isTrue =>
      obtain ⟨s₂, hall, hreset⟩ := bind_eq_ok.mp hreset
      cases hreset
      exact (h.preemptAll hall).congr rfl (fun _ => rfl) fun _ => .refl _
    case isFalse =>
      cases hreset
      exact h
  simp only at hrun
  split at hrun
  case isTrue => cases hrun
  case isFalse =>
    cases hrun
    exact h₁.congr rfl (fun _ => rfl) fun _ => .refl _

/-! ## What an output does to a request -/

theorem rejectDrafts_onlyRequest (s : Scheduler β) (id numDraftTokens : Nat) (generatedTokenIds : List Nat) :
    OnlyRequest id s (s.rejectDrafts id numDraftTokens generatedTokenIds) := by
  unfold rejectDrafts
  split
  · exact ⟨⟨rfl, fun _ _ => rfl⟩, rfl, rfl, rfl⟩
  · exact onlyRequest_modify s id _

variable [DecidableEq β] {newTokenIds : List Nat} {hasPoolerOutput stopped : Bool}

/-- Tokens of one request leave it where it is, unless they stop it, and then it is finished. -/
theorem updateRequestWithOutput_spec {kept : List Nat}
    (hrun : s.updateRequestWithOutput cfg id newTokenIds = .ok (kept, stopped, s')) :
    OnlyRequest id s s' ∧ SameRole (s.request id) (s'.request id) ∧
      (stopped = true → (s'.request id).isFinished = true) ∧
      (stopped = false → (s'.request id).status = (s.request id).status) := by
  unfold Scheduler.updateRequestWithOutput at hrun
  dsimp only at hrun
  split at hrun
  · cases hrun
    refine ⟨onlyRequest_modify s id _, ?_, nofun, fun _ => ?_⟩ <;> rw [modify_request_self]
    exact ⟨rfl, rfl, rfl⟩
  · obtain ⟨⟨r', kept', stopped'⟩, hupdate, hrun⟩ := bind_eq_ok.mp hrun
    obtain ⟨hrole, hstop, hgoes⟩ := Core.updateRequestWithOutput_spec hupdate
    dsimp only at hrun
    split at hrun
    · cases hrun
      refine ⟨onlyRequest_modify s id _, ?_⟩
      rw [modify_request_self]
      exact ⟨hrole, hstop, hgoes⟩
    · obtain ⟨_, -, hrun⟩ := bind_eq_ok.mp hrun
      obtain ⟨kv, -, hrun⟩ := bind_eq_ok.mp hrun
      cases hrun
      have honly := (onlyRequest_modify s id fun _ => r').trans (onlyRequest_modify _ id fun r =>
        { r with numOutputPlaceholders := r.numOutputPlaceholders - kept.length })
      refine ⟨⟨⟨honly.requests, honly.others⟩, rfl, rfl, rfl⟩, ?_⟩
      rw [modify_request_self, modify_request_self]
      exact ⟨⟨hrole.1, hrole.2, hrole.3⟩, hstop, hgoes⟩

theorem checkOutput_spec (hrun : s.checkOutput cfg id newTokenIds hasPoolerOutput = .ok (stopped, s')) :
    OnlyRequest id s s' ∧ SameRole (s.request id) (s'.request id) ∧
      (stopped = true → (s'.request id).isFinished = true) ∧
      (stopped = false → (s'.request id).status = (s.request id).status) := by
  unfold checkOutput at hrun
  split at hrun
  · obtain ⟨⟨kept, stopped', s₁⟩, hupdate, hrun⟩ := bind_eq_ok.mp hrun
    cases hrun
    exact updateRequestWithOutput_spec hupdate
  · split at hrun
    · cases hrun
      refine ⟨onlyRequest_modify s id _, ?_, fun _ => ?_, nofun⟩ <;> rw [modify_request_self]
      · exact ⟨rfl, rfl, rfl⟩
      · rfl
    · cases hrun
      exact ⟨⟨⟨rfl, fun _ _ => rfl⟩, rfl, rfl, rfl⟩, .refl _, nofun, fun _ => rfl⟩

end Scheduler
end Yuan.Core
