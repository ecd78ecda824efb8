import Yuan.Core.Schedule
import Yuan.Lib.Buffer
import Yuan.StructuredOutput.XgrammarGrammar

/-!
# `StructuredOutputManager`: the rows of the grammar bitmask

Before the model samples, every structured request gets a row of the bitmask for each of its drafts and one for the
bonus token. Row by row the grammar of the request is asked and fed with the next draft; behind the last row it is
rolled back. The rows of all requests lie one behind the other in a buffer that is reused between steps.

Large batches without drafts are filled by worker threads, in any order.
-/

namespace Yuan.StructuredOutput

open Yuan.Core

/-- `ReasoningParser`, as far as the bitmask needs it. -/
structure Reasoner where
  isReasoningEnd : List Nat → Bool

/-- `StructuredOutputRequest`, with its grammar compiled. -/
structure StructuredOutputRequest (σ : Type) where
  grammar : XgrammarGrammar σ
  reasoningEnded : Option Bool := none

/-- One row to fill. -/
structure Fill (σ : Type) where
  grammar : XgrammarGrammar σ
  index : Nat
  applyBitmask : Bool

/-- The manager, with the matcher of its backend and the worker threads, which do their fills in some order. -/
structure StructuredOutputManager (σ : Type) where
  matcher : GrammarMatcher σ
  reasoner : Option Reasoner := none
  enableInReasoning : Bool := false
  numSpeculativeTokens : Option Nat := none
  maxNumSeqs : Nat
  fillBitmaskParallelThreshold : Nat := 128
  fillBitmaskParallelBatchSize : Nat := 16
  interleave : List (Fill σ) → List (Fill σ) := id
  interleave_perm : ∀ fills, (interleave fills).Perm fills := by exact fun _ => .refl _

/-- What the manager changes: its buffer, once it is allocated, and the requests. -/
structure MaskState (σ : Type) where
  grammarBitmask : Option (List Bitmask) := none
  structured : Nat → StructuredOutputRequest σ

/-- `bitmask[index] = row`. -/
def writeRow (bitmask : List Bitmask) (index : Nat) (row : Bitmask) : Except PyError (List Bitmask) :=
  if index < bitmask.length then .ok (bitmask.set index row)
  else .error (.indexError "index out of range")

/-- The locals of the loop over the drafts of a request. -/
structure FillState (σ : Type) where
  grammar : XgrammarGrammar σ
  applyBitmask : Bool
  stateAdvancements : Nat := 0
  cumulativeIndex : Nat
  bitmask : List Bitmask

/-- The locals of the loop over the requests. -/
structure FillRun (σ : Type) where
  cumulativeIndex : Nat
  bitmask : List Bitmask
  structured : Nat → StructuredOutputRequest σ

namespace StructuredOutputManager

variable {σ β : Type} (manager : StructuredOutputManager σ) (request : Nat → Request β)

/-- `should_fill_bitmask`, and the request with its flag set. -/
def shouldFillBitmask (request : Request β) (q : StructuredOutputRequest σ) : Bool × StructuredOutputRequest σ :=
  match manager.reasoner with
  | none => (true, q)
  | some reasoner =>
    if manager.enableInReasoning then (true, q)
    else
      match q.reasoningEnded with
      | some reasoningEnded => (reasoningEnded, q)
      | none =>
        let reasoningEnded := reasoner.isReasoningEnd (request.promptTokenIds.getD [])
        (reasoningEnded, { q with reasoningEnded := some reasoningEnded })

/-- `_fill_bitmasks`. -/
def fillBitmasks (batch : List (Fill σ)) (bitmask : List Bitmask) : Except PyError (List Bitmask) :=
  batch.foldlM (fun bitmask fill =>
    writeRow bitmask fill.index (fill.grammar.maskRow manager.matcher fill.applyBitmask)) bitmask

/-- The body of the loop over the drafts of a request and the padding behind them. -/
def fillToken (s : FillState σ) (token : Int) : Except PyError (FillState σ) := do
  let bitmask ← manager.fillBitmasks [⟨s.grammar, s.cumulativeIndex, s.applyBitmask⟩] s.bitmask
  -- the grammar does not advance behind a padding token
  let applyBitmask := s.applyBitmask && decide (token ≠ -1)
  if applyBitmask && !s.grammar.isTerminated then do
    let accepted := s.grammar.acceptTokens manager.matcher [token]
    pyAssert accepted.1 "(token, req_id, scheduled_spec_decode_tokens)"
    return { s with
      grammar := accepted.2, applyBitmask, bitmask
      stateAdvancements := s.stateAdvancements + 1
      cumulativeIndex := s.cumulativeIndex + 1 }
  else return { s with applyBitmask, bitmask, cumulativeIndex := s.cumulativeIndex + 1 }

/-- The drafts of a request. -/
def reqTokens (scheduledSpecDecodeTokens : Dict Nat (List Int)) (reqId : Nat) : List Int :=
  (scheduledSpecDecodeTokens.get? reqId).getD []

/-- The rows of one request, filled serially. -/
def fillRequest (scheduledSpecDecodeTokens : Dict Nat (List Int)) (run : FillRun σ) (reqId : Nat) :
    Except PyError (FillRun σ) := do
  let flagged := manager.shouldFillBitmask (request reqId) (run.structured reqId)
  let s ← (reqTokens scheduledSpecDecodeTokens reqId ++ [-1]).foldlM manager.fillToken
    { grammar := flagged.2.grammar
      applyBitmask := flagged.1
      cumulativeIndex := run.cumulativeIndex
      bitmask := run.bitmask }
  let grammar :=
    if 0 < s.stateAdvancements then s.grammar.rollback manager.matcher s.stateAdvancements else s.grammar
  return {
    cumulativeIndex := s.cumulativeIndex
    bitmask := s.bitmask
    structured := Function.update run.structured reqId { flagged.2 with grammar } }

/-- The serial filling. -/
def serialFill (ids : List Nat) (scheduledSpecDecodeTokens : Dict Nat (List Int)) (bitmask : List Bitmask)
    (structured : Nat → StructuredOutputRequest σ) : Except PyError (FillRun σ) :=
  ids.foldlM (manager.fillRequest request scheduledSpecDecodeTokens) { cumulativeIndex := 0, bitmask, structured }

/-- The fills of a batch without drafts, from row `index` on, and the requests with their flags set. -/
def collectFills : Nat → List Nat → (Nat → StructuredOutputRequest σ) →
    List (Fill σ) × (Nat → StructuredOutputRequest σ)
  | _, [], structured => ([], structured)
  | index, reqId :: ids, structured =>
    let flagged := manager.shouldFillBitmask (request reqId) (structured reqId)
    let rest := collectFills (index + 1) ids (Function.update structured reqId flagged.2)
    (⟨flagged.2.grammar, index, flagged.1⟩ :: rest.1, rest.2)

/-- The batches that are submitted, with the started one. -/
def submitFills (batchSize : Nat) : List (Fill σ) → List (Fill σ) → List (List (Fill σ))
  | batch, [] => if batch.isEmpty then [] else [batch]
  | batch, fill :: fills =>
    if (batch ++ [fill]).length = batchSize then (batch ++ [fill]) :: submitFills batchSize [] fills
    else submitFills batchSize (batch ++ [fill]) fills

/-- The parallel filling. -/
def parallelFill (ids : List Nat) (bitmask : List Bitmask) (structured : Nat → StructuredOutputRequest σ) :
    Except PyError (FillRun σ) := do
  let fills := manager.collectFills request 0 ids structured
  let promises := submitFills manager.fillBitmaskParallelBatchSize [] fills.1
  let bitmask ← manager.fillBitmasks (manager.interleave promises.flatten) bitmask
  return { cumulativeIndex := ids.length, bitmask, structured := fills.2 }

/-- The rows of the buffer. -/
def numRows : Nat := manager.maxNumSeqs * (1 + manager.numSpeculativeTokens.getD 0)

/-- The filling, in parallel when the batch is large and the model does not speculate. -/
def fillRows (ids : List Nat) (scheduledSpecDecodeTokens : Dict Nat (List Int)) (bitmask : List Bitmask)
    (structured : Nat → StructuredOutputRequest σ) : Except PyError (FillRun σ) :=
  if manager.fillBitmaskParallelThreshold < ids.length ∧ manager.numSpeculativeTokens.getD 0 = 0 then
    manager.parallelFill request ids bitmask structured
  else manager.serialFill request ids scheduledSpecDecodeTokens bitmask structured

/-- `grammar_bitmask`. -/
def grammarBitmask (ids : List Nat) (scheduledSpecDecodeTokens : Dict Nat (List Int)) (state : MaskState σ) :
    Except PyError (Option (List Bitmask) × MaskState σ) :=
  if ids.isEmpty then return (none, state)
  else do
    let bitmask := state.grammarBitmask.getD (List.replicate manager.numRows fullMask)
    let run ← manager.fillRows request ids scheduledSpecDecodeTokens bitmask state.structured
    let rows := if run.cumulativeIndex < run.bitmask.length then run.bitmask.take run.cumulativeIndex else run.bitmask
    return (some rows, { grammarBitmask := some run.bitmask, structured := run.structured })

/-! ## What a row should be -/

/-- Row `j` of a request: what the grammar allows after the first `j` drafts, unless there is padding among them, the
grammar is at its end or is not applied. -/
def expectedRow (m : GrammarMatcher σ) (grammar : XgrammarGrammar σ) (applyBitmask : Bool) (drafts : List Int)
    (j : Nat) : Bitmask :=
  (grammar.after m (drafts.take j)).maskRow m (applyBitmask && decide (-1 ∉ drafts.take j))

/-- The rows of a request. -/
def expectedRows (m : GrammarMatcher σ) (grammar : XgrammarGrammar σ) (applyBitmask : Bool) (drafts : List Int) :
    List Bitmask :=
  (List.range (drafts.length + 1)).map (expectedRow m grammar applyBitmask drafts)

section Rows

variable {m : GrammarMatcher σ} {grammar : XgrammarGrammar σ} {applyBitmask : Bool} {drafts : List Int} {token : Int}

theorem expectedRows_length : (expectedRows m grammar applyBitmask drafts).length = drafts.length + 1 := by
  rw [expectedRows, List.length_map, List.length_range]

theorem expectedRows_nil : expectedRows m grammar applyBitmask [] = [grammar.maskRow m applyBitmask] := by
  simp [expectedRows, expectedRow, XgrammarGrammar.after]

theorem expectedRows_cons : expectedRows m grammar applyBitmask (token :: drafts) = grammar.maskRow m applyBitmask ::
      expectedRows m (grammar.acceptTokens m [token]).2 (applyBitmask && decide (token ≠ -1)) drafts := by
  rw [expectedRows, List.length_cons, List.range_succ_eq_map, List.map_cons, List.map_map]
  congr 1
  · simp [expectedRow, XgrammarGrammar.after]
  · apply List.map_congr_left
    intro j _
    have hmem : decide (-1 ∉ token :: drafts.take j) = (decide (token ≠ -1) && decide (-1 ∉ drafts.take j)) := by
      rw [← Bool.decide_and, decide_eq_decide, List.mem_cons, not_or]
      exact and_congr_left' (not_congr eq_comm)
    rw [Function.comp, expectedRow, expectedRow, List.take_succ_cons, hmem, ← Bool.and_assoc]
    rfl

/-- The rows of a grammar that is not applied do not depend on it. -/
theorem expectedRows_false (grammar' : XgrammarGrammar σ) :
    expectedRows m grammar false drafts = expectedRows m grammar' false drafts := rfl

end Rows

end StructuredOutputManager
end Yuan.StructuredOutput
