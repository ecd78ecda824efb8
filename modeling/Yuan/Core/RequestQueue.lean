import Yuan.Lib.Heap
import Yuan.Lib.Py

/-!
# The waiting queue of the scheduler

`FCFSRequestQueue` is a deque, `PriorityRequestQueue` a heap. A queue is the list behind either, of
request ids; a method that compares requests gets the comparison `lt` as an argument.

Every method comes with the items it leaves, up to their order: this is all that the two policies
have in common.
-/

namespace Yuan.Core

/-- `SchedulingPolicy`. -/
inductive SchedulingPolicy where
  | fcfs
  | priority
  deriving DecidableEq, Repr

namespace RequestQueue

variable (policy : SchedulingPolicy) (lt : Nat → Nat → Bool) (q : List Nat)

/-- `add_request`. -/
def addRequest (request : Nat) : List Nat :=
  match policy with
  | .fcfs => q ++ [request]
  | .priority => Heap.heappush lt q request

/-- `peek_request`. -/
def peekRequest : Except PyError Nat :=
  match policy, q with
  | _, request :: _ => .ok request
  | .fcfs, [] => .error (.indexError "peek from an empty queue")
  | .priority, [] => .error (.indexError "peek from empty heap")

/-- `pop_request`. -/
def popRequest : Except PyError (Nat × List Nat) :=
  match policy with
  | .fcfs =>
    match q with
    | request :: rest => .ok (request, rest)
    | [] => .error (.indexError "pop from an empty deque")
  | .priority =>
    match Heap.heappop lt q with
    | some popped => .ok popped
    | none => .error (.indexError "pop from empty heap")

/-- `prepend_request`; a heap has no front to prepend to. -/
def prependRequest (request : Nat) : List Nat :=
  match policy with
  | .fcfs => request :: q
  | .priority => addRequest policy lt q request

/-- `__iter__`. -/
def iter : List Nat :=
  match policy with
  | .fcfs => q
  | .priority => Heap.popAll lt q.length q

/-- `prepend_requests`: the requests of another queue, one after the other. -/
def prependRequests (requests : List Nat) : List Nat :=
  (iter policy lt requests).foldl (fun q request => prependRequest policy lt q request) q

/-- `remove_requests`. -/
def removeRequests (requests : List Nat) : List Nat :=
  let filtered := q.filter (· ∉ requests)
  match policy with
  | .fcfs => filtered
  | .priority => Heap.heapify lt filtered

variable {policy lt q}

theorem addRequest_perm (request : Nat) : (addRequest policy lt q request).Perm (request :: q) := by
  cases policy with
  | fcfs => exact List.perm_append_singleton request q
  | priority => exact Heap.heappush_perm q request

theorem prependRequest_perm (request : Nat) : (prependRequest policy lt q request).Perm (request :: q) := by
  cases policy with
  | fcfs => exact .refl _
  | priority => exact Heap.heappush_perm q request

theorem peekRequest_head {request : Nat} (h : peekRequest policy q = .ok request) : q.head? = some request := by
  cases q with
  | nil => cases policy <;> simp [peekRequest] at h
  | cons first rest =>
    cases policy <;> simp only [peekRequest, Except.ok.injEq] at h <;> rw [h] <;> rfl

theorem popRequest_perm {request : Nat} {rest : List Nat}
    (h : popRequest policy lt q = .ok (request, rest)) : (request :: rest).Perm q := by
  cases policy with
  | fcfs =>
    cases q with
    | nil => simp [popRequest] at h
    | cons first tail =>
      simp only [popRequest, Except.ok.injEq, Prod.mk.injEq] at h
      rw [h.1, h.2]
  | priority =>
    cases hpop : Heap.heappop lt q with
    | none => simp [popRequest, hpop] at h
    | some popped =>
      simp only [popRequest, hpop, Except.ok.injEq] at h
      subst h
      exact Heap.heappop_perm hpop

theorem iter_perm : (iter policy lt q).Perm q := by
  cases policy with
  | fcfs => exact .refl _
  | priority => exact Heap.popAll_perm le_rfl

theorem foldl_prependRequest_perm (requests : List Nat) :
    (requests.foldl (fun q request => prependRequest policy lt q request) q).Perm (requests ++ q) := by
  induction requests generalizing q with
  | nil => exact .refl _
  | cons request rest ih =>
    apply ih.trans
    apply ((prependRequest_perm request).append_left rest).trans
    exact List.perm_middle

@[simp] theorem prependRequests_nil : prependRequests policy lt q [] = q := by cases policy <;> rfl

theorem prependRequests_perm (requests : List Nat) : (prependRequests policy lt q requests).Perm (requests ++ q) :=
  (foldl_prependRequest_perm _).trans (iter_perm.append_right q)

theorem removeRequests_perm (requests : List Nat) :
    (removeRequests policy lt q requests).Perm (q.filter (· ∉ requests)) := by
  cases policy with
  | fcfs => exact .refl _
  | priority => exact Heap.heapify_perm _

end RequestQueue

/-- `remove_all`. -/
def removeAll (lst itemsToRemove : List Nat) : List Nat :=
  match itemsToRemove with
  | [] => lst
  | [item] => lst.erase item
  | _ => lst.filter (· ∉ itemsToRemove)

/-- Without duplicates, taking out the one item is filtering. -/
theorem removeAll_eq {lst : List Nat} (h : lst.Nodup) (items : List Nat) :
    removeAll lst items = lst.filter (· ∉ items) := by
  rcases items with _ | ⟨item, _ | ⟨other, items⟩⟩
  · simp [removeAll]
  · simp [removeAll, h.erase_eq_filter, bne, BEq.beq]
  · rfl

end Yuan.Core
