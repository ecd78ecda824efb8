import Yuan.Lib.Dict
import Yuan.Frontend.Detokenizer

/-!
# Parallel sampling

A request with `n > 1` is sent as `n` children. The parent collects what the children return.
-/

namespace Yuan.Frontend

variable {L : Type}

/-- What one child returns in one output. -/
structure CompletionOutput (L : Type) where
  index : Nat
  text : List Char
  tokenIds : List Nat
  logprobs : Option (List L)
  finishReason : Option FinishReason
  stopReason : Option StopReason
  deriving DecidableEq, Repr

def CompletionOutput.finished (c : CompletionOutput L) : Bool := c.finishReason.isSome

/-- One call of `get_outputs`. -/
structure Report (L : Type) where
  child : String
  completion : CompletionOutput L
  outputs : List (Option (CompletionOutput L))
  finished : Bool
  deriving DecidableEq, Repr

/-- The parent of parallel sampling. The aggregator starts with `n` times `None`; `reports` records the
calls of `get_outputs`. -/
structure ParentRequest (L : Type) where
  requestId : String
  externalReqId : String
  samplingParams : SamplingParams
  childRequests : List String := []
  outputAggregator : List (Option (CompletionOutput L))
  cachedChildSamplingParams : Option SamplingParams := none
  reports : List (Report L) := []

namespace ParentRequest

/-- `ParentRequest(request)`. -/
def new (requestId externalReqId : String) (samplingParams : SamplingParams) : ParentRequest L where
  requestId := requestId
  externalReqId := externalReqId
  samplingParams := samplingParams
  outputAggregator :=
    if samplingParams.outputKind = .finalOnly then List.replicate samplingParams.n none else []

/-- `_get_child_sampling_params`. With a seed, each child has its own. -/
def getChildSamplingParams (parent : ParentRequest L) (index : Nat) :
    ParentRequest L × SamplingParams :=
  match parent.cachedChildSamplingParams with
  | some params => (parent, params)
  | none =>
    let params := { parent.samplingParams with n := 1 }
    match parent.samplingParams.seed with
    | none => ({ parent with cachedChildSamplingParams := some params }, params)
    | some seed => (parent, { params with seed := some (seed + index) })

/-- The request id of a child. -/
def childReqId (requestId : String) (index : Nat) : String :=
  toString index ++ "_" ++ requestId

/-- Adds to the set of children. -/
def addChild (parent : ParentRequest L) (childReqId : String) : ParentRequest L :=
  { parent with
    childRequests := if childReqId ∈ parent.childRequests then parent.childRequests
      else parent.childRequests ++ [childReqId] }

/-- `get_child_info`. -/
def getChildInfo (parent : ParentRequest L) (index : Nat) :
    ParentRequest L × String × SamplingParams :=
  let id := childReqId parent.requestId index
  let (parent, params) := (parent.addChild id).getChildSamplingParams index
  (parent, id, params)

/-- A child that finishes leaves the set of children. -/
def removeChild (parent : ParentRequest L) (id : String) (completion : CompletionOutput L) :
    ParentRequest L :=
  if completion.finished ∧ id ∈ parent.childRequests then
    { parent with childRequests := parent.childRequests.erase id }
  else parent

/-- The outputs that `get_outputs` returns when `parent` has the children left. -/
def collect (parent : ParentRequest L) (alreadyFinishedAndReturned : Bool)
    (completion : CompletionOutput L) :
    Except PyError (ParentRequest L × List (Option (CompletionOutput L))) :=
  if parent.samplingParams.outputKind ≠ .finalOnly then
    .ok (parent, if alreadyFinishedAndReturned then [] else [some completion])
  else if completion.index < parent.outputAggregator.length then
    let aggregator := parent.outputAggregator.set completion.index (some completion)
    .ok ({ parent with outputAggregator := aggregator },
      if parent.childRequests ≠ [] then [] else aggregator)
  else .error (.indexError "list assignment index out of range")

/-- `get_outputs`. -/
def getOutputs (parent : ParentRequest L) (id : String) (completion : CompletionOutput L) :
    Except PyError (ParentRequest L × List (Option (CompletionOutput L)) × Bool) := do
  let alreadyFinishedAndReturned := completion.finished && decide (id ∉ parent.childRequests)
  let (parent, outputs) ← (parent.removeChild id completion).collect alreadyFinishedAndReturned
    completion
  let finished := parent.childRequests.isEmpty
  return ({ parent with reports := parent.reports ++ [⟨id, completion, outputs, finished⟩] }, outputs,
    finished)

/-- The digits of the index end at the first underscore: a child's id tells its parent and its index. -/
theorem childReqId_inj {p q : String} {i j : Nat} (h : childReqId p i = childReqId q j) : p = q ∧ i = j := by
  have hlists : ∀ (p : String) (i : Nat),
      (childReqId p i).toList = Nat.toDigits 10 i ++ '_' :: p.toList := by
    intro p i
    unfold childReqId
    rw [String.toList_append, String.toList_append, List.append_assoc]
    show (Nat.repr i).toList ++ _ = _
    rw [Nat.toList_repr]
    rfl
  have hdigits : ∀ (i : Nat), ∀ c ∈ Nat.toDigits 10 i, (c != '_') = true := by
    intro i c hc
    have hdigit := Nat.isDigit_of_mem_toDigits (by decide) (by decide) hc
    rw [bne_iff_ne]
    rintro rfl
    revert hdigit
    decide
  have hlist := congrArg String.toList h
  rw [hlists, hlists] at hlist
  have htake := congrArg (List.takeWhile (· != '_')) hlist
  rw [List.takeWhile_append_of_pos (hdigits i), List.takeWhile_append_of_pos (hdigits j)] at htake
  have hsame : Nat.toDigits 10 i = Nat.toDigits 10 j := by simpa using htake
  rw [hsame] at hlist
  refine ⟨String.toList_inj.mp (List.cons.inj (List.append_cancel_left hlist)).2, ?_⟩
  calc
    i = Nat.ofDigitChars 10 (Nat.toDigits 10 i) 0 := Nat.ofDigitChars_ten_toDigits.symm
    _ = Nat.ofDigitChars 10 (Nat.toDigits 10 j) 0 := by rw [hsame]
    _ = j := Nat.ofDigitChars_ten_toDigits

end ParentRequest

end Yuan.Frontend
