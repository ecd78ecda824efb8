import Yuan.Core.MambaPositions
import Yuan.Core.ManagerRuns

/-!
# A request in align mode

The run of one request of a mamba group in align mode: the steps of the scheduler for it, from the call of
`allocate_slots` to the tokens that the worker computes and the drafts it rejects, while everything else
happens to the pool and to the tables of other requests and groups. With async scheduling the scheduler
learns of rejected drafts only after it has scheduled the next step; until then it counts them as computed.

An allocation asserts that a request never needs fewer blocks than it has. Rejected drafts can take it back
behind a block boundary, so this holds as long as no step ends in an earlier block than the step before.
-/

namespace Yuan.Core

/-! ## Other requests -/

/-- The request whose table an operation changes. -/
def MambaOp.requestId? {κ : Type} : MambaOp κ → Option Nat
  | .removeSkippedBlocks requestId _ => some requestId
  | .allocateNewComputedBlocks requestId _ _ => some requestId
  | .allocateNewBlocks requestId _ => some requestId
  | .cacheBlocks requestId _ _ _ => some requestId
  | .free requestId => some requestId
  | .newStepStarts => none

theorem MambaManager.step_others {κ : Type} [DecidableEq κ] {m : MambaManager} {s s' : MambaState κ}
    {cfg : BlockPool.Config} {l : List Nat} (h : s.kv.Ok cfg l) (hbehind : m.Behind s) {op : MambaOp κ}
    (henabled : m.Enabled s cfg.sinkBlocks op) (hstep : m.step s op = .ok s') {r : Nat} (hr : op.requestId? ≠ some r) :
    s'.kv.blocksOf (m.row r) = s.kv.blocksOf (m.row r) ∧ (r ∈ s'.allocatedBlockReqs ↔ r ∈ s.allocatedBlockReqs) := by
  have hrow : ∀ r', some r' ≠ some r → m.row r ≠ m.row r' := by
    intro r' hne heq
    exact hne (congrArg some (Prod.mk.inj heq).2.symm)
  cases op with
  | removeSkippedBlocks r' n =>
    obtain ⟨kv, rfl, -, honly, -⟩ := removeSkippedBlocks_spec h hstep
    exact ⟨honly.blocksOf (hrow r' hr), Iff.rfl⟩
  | allocateNewComputedBlocks r' hits n =>
    obtain ⟨husable, hnodup, hcaching⟩ := henabled.computed h
    obtain ⟨kv, rfl, -, honly, -⟩ := allocateNewComputedBlocks_spec h husable hnodup hcaching hstep
    exact ⟨honly.blocksOf (hrow r' hr), Iff.rfl⟩
  | allocateNewBlocks r' n =>
    obtain ⟨⟨newBlocks, st⟩, hrun, hstep⟩ := bind_eq_ok.mp hstep
    cases hstep
    obtain ⟨-, honly, -, -, -, hreqs⟩ := allocateNewBlocks_spec h hbehind.of_allocated
      (fun hnew => le_cdiv m.blockSize_pos' (henabled hnew)) hrun
    refine ⟨honly.blocksOf (hrow r' hr), ?_⟩
    rcases hreqs with rfl | hreqs
    · exact Iff.rfl
    · have hne : r ≠ r' := fun heq => hr (congrArg some heq.symm)
      rw [hreqs]
      simp [hne]
  | cacheBlocks r' numBlockHashes hashes n =>
    obtain ⟨hcaching, hnum, hlen, -⟩ := henabled
    rw [h.pool.enableCaching] at hcaching
    obtain ⟨kv, cachedThisStep, rfl, -, honly, -⟩ := cacheBlocks_spec h hcaching hnum hlen hstep
    exact ⟨honly.blocksOf (hrow r' hr), Iff.rfl⟩
  | free r' =>
    have hne : r ≠ r' := fun heq => hr (congrArg some heq.symm)
    obtain ⟨-, honly, -, hreqs⟩ := free_spec h hstep
    refine ⟨honly.blocksOf (hrow r' hr), ?_⟩
    rw [hreqs]
    simp [hne]
  | newStepStarts =>
    cases hstep
    exact ⟨rfl, Iff.rfl⟩

end Yuan.Core

namespace Yuan.Core.MambaRuns

/-! ## The run -/

/-- How far the scheduler is with the request: between steps, in a call of `allocate_slots` before and
after its computed blocks are added, after new blocks were allocated, and with the step scheduled. -/
inductive Phase where
  | idle
  | begun
  | ready
  | allocated
  | scheduled
  deriving DecidableEq

/-- The managers, and what scheduler and worker keep of the request. -/
structure State (κ : Type) where
  managers : Managers κ
  phase : Phase := .idle
  numComputedTokens : Nat := 0
  /-- Drafts that the worker has rejected while the scheduler still counts them as computed. -/
  numRejected : Nat := 0
  /-- The tokens of cache hits that the call at hand adds. -/
  numNewComputedTokens : Nat := 0
  /-- The tokens of the step at hand. -/
  numScheduledTokens : Nat := 0
  /-- Where the tokens of the last step end. -/
  numSlots : Nat := 0
  /-- `mamba_state_idx` of the worker. -/
  mambaStateIdx : Option Int := none
  /-- The positions whose blocks were freed as skipped. -/
  skipped : List Nat := []

inductive Event (κ : Type) where
  /-- Something else happens to the pool, another request or another group. -/
  | other (op : Managers.Op κ)
  /-- `allocate_slots` starts. -/
  | removeSkippedBlocks (numNewComputedTokens : Nat)
  /-- There are not enough free blocks. -/
  | noSlots
  | allocateNewComputedBlocks (newComputedBlocks : List Nat)
  | noComputedBlocks
  | allocateNewBlocks (useEagle : Bool) (numPromptTokens numTokens numNewTokens : Nat)
  | cacheBlocks (numBlockHashes : Nat) (blockHashes : List κ) (numTokens : Nat)
  /-- Caching is off, or delayed. -/
  | noCacheBlocks
  /-- The worker computes the step and rejects some of its drafts. -/
  | executeModel (numRejected : Nat)
  /-- The scheduler learns of rejected drafts. -/
  | updateFromOutput (numRejected : Nat)
  /-- The request is preempted, finished or aborted. -/
  | free

/-- `_mamba_block_aligned_split`. -/
def mambaBlockAlignedSplit (blockSize : Nat) (useEagle : Bool)
    (numPromptTokens numTokens numComputedTokens numNewTokens : Nat) : Nat :=
  if numComputedTokens < max numPromptTokens (numTokens - 1) then
    let lastCachePosition := numTokens - numTokens % blockSize
    -- eagle prunes the last matching block
    let lastCachePosition := if useEagle then lastCachePosition - blockSize else lastCachePosition
    let numComputedTokensAfterSched := numComputedTokens + numNewTokens
    if numComputedTokensAfterSched < lastCachePosition then numNewTokens / blockSize * blockSize
    else if numComputedTokens < lastCachePosition ∧ lastCachePosition < numComputedTokensAfterSched then
      lastCachePosition - numComputedTokens
    else numNewTokens
  else numNewTokens

section Run

variable {κ : Type} [DecidableEq κ]
variable (mambaManagers : List MambaManager) (sinkBlocks : List Nat) (m : MambaManager) (requestId : Nat)
variable (s : State κ)

namespace State

/-- The table of the request. -/
def blocks : List Nat := s.managers.kv.blocksOf (m.row requestId)

/-- The manager has given blocks to the request. -/
def Allocated : Prop := requestId ∈ (s.managers.mambaState m).allocatedBlockReqs

instance : Decidable (s.Allocated m requestId) := inferInstanceAs (Decidable (_ ∈ _))

/-- The tokens that are really computed. -/
def numVerifiedTokens : Nat := s.numComputedTokens - s.numRejected

/-- The tokens of a step of `numPromptTokens` prompt tokens and `numTokens` in all. -/
def alignedSplit (useEagle : Bool) (numPromptTokens numTokens numNewTokens : Nat) : Nat :=
  mambaBlockAlignedSplit m.kvCacheSpec.blockSize useEagle numPromptTokens numTokens
    (s.numComputedTokens + s.numNewComputedTokens) numNewTokens

/-- `num_tokens_main_model` of a step of `n` tokens. -/
def numTokensMainModel (n : Nat) : Nat := s.numComputedTokens + s.numNewComputedTokens + n

/-- Some operation of the manager on the table. -/
def apply (op : MambaOp κ) : Except PyError (State κ) := do
  let managers ← s.managers.step (.mamba m op)
  return { s with managers }

end State

/-- The positions that lose their block. -/
def freedPositions (blocks blocks' : List Nat) : List Nat :=
  (List.range blocks.length).filter fun p => blocks'[p]? ≠ blocks[p]?

/-- One event. -/
def step : Event κ → Except PyError (State κ)
  | .other op => do
    let managers ← s.managers.step op
    return { s with managers }
  | .removeSkippedBlocks numNewComputedTokens => do
    let s' ← s.apply m (.removeSkippedBlocks requestId (s.numComputedTokens + numNewComputedTokens : Nat))
    return { s' with
      phase := .begun
      numNewComputedTokens
      skipped := s.skipped ++ freedPositions (s.blocks m requestId) (s'.blocks m requestId) }
  | .noSlots => .ok { s with phase := .idle, numNewComputedTokens := 0 }
  | .allocateNewComputedBlocks newComputedBlocks => do
    let s' ← s.apply m (.allocateNewComputedBlocks requestId newComputedBlocks
      (s.numComputedTokens + s.numNewComputedTokens : Nat))
    return { s' with phase := .ready }
  | .noComputedBlocks => .ok { s with phase := .ready }
  | .allocateNewBlocks useEagle numPromptTokens numTokens numNewTokens => do
    let n := s.alignedSplit m useEagle numPromptTokens numTokens numNewTokens
    let s' ← s.apply m (.allocateNewBlocks requestId (s.numTokensMainModel n))
    return { s' with
      phase := .allocated
      numComputedTokens := s.numComputedTokens + s.numNewComputedTokens
      numNewComputedTokens := 0
      numScheduledTokens := n
      numSlots := s.numTokensMainModel n }
  | .cacheBlocks numBlockHashes blockHashes numTokens => do
    -- drafts are not cached
    let s' ← s.apply m (.cacheBlocks requestId numBlockHashes blockHashes
      (min (s.numComputedTokens + s.numScheduledTokens) numTokens : Nat))
    return { s' with phase := .scheduled }
  | .noCacheBlocks => .ok { s with phase := .scheduled }
  | .executeModel numRejected => .ok { s with
      phase := .idle
      numComputedTokens := s.numComputedTokens + s.numScheduledTokens
      numRejected := s.numRejected + numRejected
      numScheduledTokens := 0
      mambaStateIdx := some (m.currStateIdx s.numVerifiedTokens s.numScheduledTokens) }
  | .updateFromOutput numRejected => .ok { s with
      numComputedTokens := s.numComputedTokens - numRejected
      numRejected := s.numRejected - numRejected }
  | .free => do
    let s' ← s.apply m (.free requestId)
    return { managers := s'.managers }

/-- An operation on the table of another request or group. -/
def Elsewhere : Managers.Op κ → Prop
  | .pool _ => True
  | .mamba m' op => m'.kvCacheGroupId = m.kvCacheGroupId → op.requestId? ≠ some requestId

/-- What scheduler and worker see to. -/
def Enabled : Event κ → Prop
  | .other op => s.managers.Enabled mambaManagers sinkBlocks op ∧ Elsewhere m requestId op
  | .removeSkippedBlocks numNewComputedTokens =>
    s.phase = .idle ∧
      -- the outputs of all steps but the last one have been seen
      s.numRejected ≤ m.numSpeculativeBlocks ∧
      -- only a request without computed tokens is looked up in the cache
      (numNewComputedTokens ≠ 0 → s.numComputedTokens = 0)
  | .noSlots => s.phase = .begun
  | .allocateNewComputedBlocks newComputedBlocks =>
    s.phase = .begun ∧ s.numComputedTokens = 0 ∧
      s.numNewComputedTokens = newComputedBlocks.length * m.kvCacheSpec.blockSize ∧
      (s.managers.kv.pool.enableCaching = true ∨ newComputedBlocks = []) ∧
      PoolRuns.ComputedBlocks sinkBlocks s.managers.kv newComputedBlocks
  | .noComputedBlocks => s.phase = .begun ∧ s.numNewComputedTokens = 0
  | .allocateNewBlocks useEagle numPromptTokens numTokens numNewTokens =>
    s.phase = .ready ∧ 0 < s.alignedSplit m useEagle numPromptTokens numTokens numNewTokens ∧
      -- a step after drafts is a decode step of one token and its drafts
      (s.numRejected ≠ 0 →
        s.alignedSplit m useEagle numPromptTokens numTokens numNewTokens ≤ m.numSpeculativeBlocks + 1)
  | .cacheBlocks numBlockHashes blockHashes numTokens =>
    let numFullBlocks := min (s.numComputedTokens + s.numScheduledTokens) numTokens / m.kvCacheSpec.blockSize
    s.phase = .allocated ∧ s.managers.kv.pool.enableCaching = true ∧
      numFullBlocks ≤ numBlockHashes ∧ numFullBlocks ≤ blockHashes.length
  | .noCacheBlocks => s.phase = .allocated
  | .executeModel numRejected =>
    s.phase = .scheduled ∧ numRejected ≤ m.numSpeculativeBlocks ∧ numRejected < s.numScheduledTokens ∧
      (numRejected ≠ 0 → s.numScheduledTokens ≤ m.numSpeculativeBlocks + 1)
  | .updateFromOutput numRejected => s.phase = .idle ∧ numRejected ≤ s.numRejected
  | .free => True

/-- The states of all runs of a request whose steps meet a condition. Before the run it has no blocks. -/
inductive Reachable (condition : State κ → Event κ → Prop) : State κ → Prop where
  | start {managers : Managers κ} (h : managers.Reachable mambaManagers sinkBlocks)
      (hnil : managers.kv.blocksOf (m.row requestId) = [])
      (hnew : requestId ∉ (managers.mambaState m).allocatedBlockReqs) : Reachable condition { managers }
  | step {s s' : State κ} {event : Event κ} (h : Reachable condition s)
      (henabled : Enabled mambaManagers sinkBlocks m requestId s event) (hcondition : condition s event)
      (hstep : step m requestId s event = .ok s') : Reachable condition s'

/-- A step of `n` tokens does not end in an earlier block than the last one. -/
def KeepsBlocks (n : Nat) : Prop :=
  s.Allocated m requestId → cdiv s.numSlots m.blockSize ≤ cdiv (s.numTokensMainModel n) m.blockSize

/-- The condition: no step ends in an earlier block than the step before, and if a step is scheduled while
the scheduler does not know of rejected drafts, they are fewer than the tokens of a block. -/
def Meets : Event κ → Prop
  | .allocateNewBlocks useEagle numPromptTokens numTokens numNewTokens =>
    KeepsBlocks m requestId s (s.alignedSplit m useEagle numPromptTokens numTokens numNewTokens) ∧
      (s.numRejected = 0 ∨ m.numSpeculativeBlocks < m.kvCacheSpec.blockSize)
  | _ => True

end Run

/-! ## The invariant -/

section Invariant

open MambaManager

variable {κ : Type}

/-- A request that was not given blocks: its table are the hits of the call at hand. -/
structure Fresh (m : MambaManager) (blocks : List Nat) (s : State κ) : Prop where
  numComputedTokens : s.numComputedTokens = 0
  nil : s.phase ≠ .ready → blocks = []
  hits : s.phase = .ready → blocks.length * m.kvCacheSpec.blockSize = s.numNewComputedTokens
  mambaStateIdx : s.mambaStateIdx = none
  skipped : s.skipped = []
  numScheduledTokens : s.numScheduledTokens = 0

/-- A request that was given blocks: the tokens of its steps end in the `q`th block, where the last
`1 + num_speculative_blocks` positions of the table begin. -/
structure Table (m : MambaManager) (blocks : List Nat) (s : State κ) (q : Nat) : Prop where
  slots_le : s.numSlots ≤ q * m.kvCacheSpec.blockSize
  lt_slots : q * m.kvCacheSpec.blockSize < s.numSlots + m.kvCacheSpec.blockSize
  length : blocks.length = q + m.numSpeculativeBlocks
  holds : ∀ p, q ≤ p + 1 → p < q + m.numSpeculativeBlocks → HoldsBlock blocks p
  numNewComputedTokens : s.numNewComputedTokens = 0
  computed_le : s.numComputedTokens + s.numScheduledTokens ≤ s.numSlots
  scheduled : s.numScheduledTokens ≠ 0 → s.numComputedTokens + s.numScheduledTokens = s.numSlots ∧
    (s.numRejected = 0 ∨ m.numSpeculativeBlocks < m.kvCacheSpec.blockSize ∧
      s.numScheduledTokens ≤ m.numSpeculativeBlocks + 1)
  executed : s.numScheduledTokens = 0 → 0 < s.numVerifiedTokens
  skipped : ∀ p ∈ s.skipped, (p + 1) * m.kvCacheSpec.blockSize < s.numVerifiedTokens
  state : ∀ w, s.mambaStateIdx = some w → ∃ p : Nat, w = p ∧ p < q ∧
    s.numVerifiedTokens ≤ (p + 1) * m.kvCacheSpec.blockSize ∧ HoldsBlock blocks p
  -- the running state of the next step goes here, if its tokens end before the last block without the drafts
  previous : s.numScheduledTokens ≤ m.numSpeculativeBlocks + 1 →
    m.numSpeculativeBlocks < m.kvCacheSpec.blockSize →
    s.numVerifiedTokens + m.kvCacheSpec.blockSize < q * m.kvCacheSpec.blockSize → HoldsBlock blocks (q - 2)

variable [DecidableEq κ]

/-- The managers are in order, and so is the table of the request. -/
structure Ok (mambaManagers : List MambaManager) (sinkBlocks : List Nat) (m : MambaManager) (requestId : Nat)
    (s : State κ) : Prop where
  managers : s.managers.Reachable mambaManagers sinkBlocks
  rejected_le : s.numRejected ≤ s.numComputedTokens
  rejected_le_drafts : s.phase ≠ .idle → s.numRejected ≤ m.numSpeculativeBlocks
  scheduled_iff : s.numScheduledTokens ≠ 0 ↔ s.phase = .allocated ∨ s.phase = .scheduled
  fresh : ¬ s.Allocated m requestId → Fresh m (s.blocks m requestId) s
  table : s.Allocated m requestId → ∃ q, Table m (s.blocks m requestId) s q

variable {mambaManagers : List MambaManager} {sinkBlocks : List Nat} {m : MambaManager} {requestId : Nat}
variable {s s' : State κ} {q : Nat} {managers : Managers κ} {blocks : List Nat}

theorem Ok.start (h : managers.Reachable mambaManagers sinkBlocks) (hnil : managers.kv.blocksOf (m.row requestId) = [])
    (hnew : requestId ∉ (managers.mambaState m).allocatedBlockReqs) :
    Ok mambaManagers sinkBlocks m requestId ({ managers } : State κ) where
  managers := h
  rejected_le := le_rfl
  rejected_le_drafts := fun hne => absurd rfl hne
  scheduled_iff := by simp
  fresh := by
    intro _
    exact ⟨rfl, fun _ => hnil, fun hready => (by cases hready), rfl, rfl, rfl⟩
  table := fun hallocated => absurd hallocated hnew

/-- Tokens from the first to the last one of a block end in this block. -/
theorem cdiv_eq_of {m : MambaManager} {a q : Nat} (hle : a ≤ q * m.kvCacheSpec.blockSize)
    (hlt : q * m.kvCacheSpec.blockSize < a + m.kvCacheSpec.blockSize) : cdiv a m.blockSize = q := by
  have hpos := m.blockSize_pos'
  apply le_antisymm
  · rw [cdiv_le_iff hpos]
    show (a : Int) ≤ q * (m.kvCacheSpec.blockSize : Int)
    exact_mod_cast hle
  · by_contra hgt
    have hle' := (cdiv_le_iff hpos).mp (show cdiv a m.blockSize ≤ (q : Int) - 1 by omega)
    rw [Int.sub_mul] at hle'
    unfold SingleTypeKVCacheManager.blockSize at hle'
    omega

/-! ### Operations on the table -/

/-- An operation of the manager gives managers that are in order again. -/
theorem Ok.apply (h : Ok mambaManagers sinkBlocks m requestId s) (hm : m ∈ mambaManagers) {op : MambaOp κ}
    (henabled : m.Enabled (s.managers.mambaState m) sinkBlocks op) (hrun : s.apply m op = .ok s') :
    ∃ st managers, m.step (s.managers.mambaState m) op = .ok st ∧ s' = { s with managers } ∧
      managers.Reachable mambaManagers sinkBlocks ∧
      managers.kv = st.kv ∧ (managers.mambaState m).allocatedBlockReqs = st.allocatedBlockReqs := by
  obtain ⟨managers, hmanagers, hrun⟩ := bind_eq_ok.mp hrun
  cases hrun
  have hall : s.managers.Enabled mambaManagers sinkBlocks (.mamba m op) := ⟨hm, henabled⟩
  have hreachable := h.managers.step hall hmanagers
  obtain ⟨st, hst, hmanagers⟩ := bind_eq_ok.mp hmanagers
  cases hmanagers
  refine ⟨st, _, hst, rfl, hreachable, rfl, ?_⟩
  show (Function.update s.managers.mamba m.kvCacheGroupId st m.kvCacheGroupId).allocatedBlockReqs = _
  rw [Function.update_self]

/-- Something else leaves the table of the request alone. -/
theorem Managers.step_elsewhere {managers' : Managers κ} (h : managers.Reachable mambaManagers sinkBlocks)
    (hm : m ∈ mambaManagers) {op : Managers.Op κ} (henabled : managers.Enabled mambaManagers sinkBlocks op)
    (helsewhere : Elsewhere m requestId op) (hstep : managers.step op = .ok managers') :
    managers'.kv.blocksOf (m.row requestId) = managers.kv.blocksOf (m.row requestId) ∧
      (requestId ∈ (managers'.mambaState m).allocatedBlockReqs ↔
        requestId ∈ (managers.mambaState m).allocatedBlockReqs) := by
  obtain ⟨⟨cfg, l, hsinks, hok, -⟩, hbehind⟩ := h.ok
  subst hsinks
  cases op with
  | pool op =>
    obtain ⟨kv, hkv, hstep⟩ := bind_eq_ok.mp hstep
    cases hstep
    exact ⟨(PoolRuns.step_others (henabled.2 m hm requestId) hkv).1, Iff.rfl⟩
  | mamba m' op =>
    obtain ⟨st, hst, hstep⟩ := bind_eq_ok.mp hstep
    cases hstep
    obtain ⟨hm', henabled⟩ := henabled
    by_cases hsame : m'.kvCacheGroupId = m.kvCacheGroupId
    · obtain rfl : m' = m := List.inj_on_of_nodup_map h.nodup_groups hm' hm hsame
      obtain ⟨hblocks, hreqs⟩ := MambaManager.step_others hok (hbehind m' hm') henabled hst (helsewhere hsame)
      refine ⟨hblocks, ?_⟩
      show _ ∈ (Function.update managers.mamba m'.kvCacheGroupId st m'.kvCacheGroupId).allocatedBlockReqs ↔ _
      rw [Function.update_self]
      exact hreqs
    · obtain ⟨-, -, hothers⟩ := MambaManager.step_ok hok (hbehind m' hm') henabled hst
      refine ⟨(hothers _ (Ne.symm hsame)).1, ?_⟩
      show _ ∈ (Function.update managers.mamba m'.kvCacheGroupId st m.kvCacheGroupId).allocatedBlockReqs ↔ _
      rw [Function.update_of_ne (Ne.symm hsame)]
      rfl

/-- The invariant when only the managers change, and not the table. -/
theorem Ok.withManagers (h : Ok mambaManagers sinkBlocks m requestId s)
    (hmanagers : managers.Reachable mambaManagers sinkBlocks)
    (hblocks : managers.kv.blocksOf (m.row requestId) = s.managers.kv.blocksOf (m.row requestId))
    (hallocated : requestId ∈ (managers.mambaState m).allocatedBlockReqs ↔
      requestId ∈ (s.managers.mambaState m).allocatedBlockReqs) :
    Ok mambaManagers sinkBlocks m requestId { s with managers } where
  managers := hmanagers
  rejected_le := h.rejected_le
  rejected_le_drafts := h.rejected_le_drafts
  scheduled_iff := h.scheduled_iff
  fresh := by
    intro hnew
    have hfresh := h.fresh (mt hallocated.mpr hnew)
    rw [State.blocks, hblocks]
    exact { hfresh with }
  table := by
    intro hreq
    obtain ⟨q, htable⟩ := h.table (hallocated.mp hreq)
    rw [State.blocks, hblocks]
    exact ⟨q, { htable with }⟩

/-! ### The start of a call -/

theorem Ok.not_scheduled (h : Ok mambaManagers sinkBlocks m requestId s) (ha : s.phase ≠ .allocated)
    (hs : s.phase ≠ .scheduled) : s.numScheduledTokens = 0 := by
  by_contra hne
  rcases h.scheduled_iff.mp hne with h | h
  · exact ha h
  · exact hs h

omit [DecidableEq κ] in
theorem Table.verified_le (h : Table m blocks s q) : s.numVerifiedTokens ≤ q * m.kvCacheSpec.blockSize := by
  have := h.computed_le
  have := h.slots_le
  unfold State.numVerifiedTokens
  omega

theorem two_le_of_lt {a b q : Nat} (h : a + b < q * b) : 2 ≤ q := by
  by_contra hlt
  have := Nat.mul_le_mul_right b (show q ≤ 1 by omega)
  omega

section

variable (h : Ok mambaManagers sinkBlocks m requestId s)
include h

/-- Blocks from a position on that the verified tokens reach are not skipped. -/
theorem removeSkippedBlocks_blocks (hm : m ∈ mambaManagers) (hdrafts : s.numRejected ≤ m.numSpeculativeBlocks) {n : Nat}
    (hrun : s.apply m (.removeSkippedBlocks requestId (s.numComputedTokens + n : Nat)) = .ok s') :
    ∃ managers : Managers κ, s' = { s with managers } ∧ managers.Reachable mambaManagers sinkBlocks ∧
      (requestId ∈ (managers.mambaState m).allocatedBlockReqs ↔ s.Allocated m requestId) ∧
      (s'.blocks m requestId).length = (s.blocks m requestId).length ∧
      (n = 0 → ∀ p, s.numVerifiedTokens ≤ (p + 1) * m.kvCacheSpec.blockSize →
        (s'.blocks m requestId)[p]? = (s.blocks m requestId)[p]?) := by
  obtain ⟨⟨cfg, l, hsinks, hok, -⟩, -⟩ := h.managers.ok
  obtain ⟨st, managers, hst, rfl, hreachable, hkv, hreqs⟩ := 
    h.apply hm (show m.Enabled _ _ (.removeSkippedBlocks requestId _) from trivial) hrun
  obtain ⟨kv, rfl, -, -, -, hlen⟩ := removeSkippedBlocks_spec hok hst
  refine ⟨managers, rfl, hreachable, by rw [hreqs]; exact Iff.rfl, ?_, ?_⟩
  · rw [State.blocks, hkv]
    exact hlen
  · rintro rfl p hp
    rw [State.blocks, hkv]
    apply removeSkippedBlocks_kept hok hst
    have hp : ((s.numVerifiedTokens : Nat) : Int) ≤ (p + 1) * m.kvCacheSpec.blockSize := by exact_mod_cast hp
    unfold State.numVerifiedTokens at hp
    show _ ≤ (p + 1 : Int) * (m.kvCacheSpec.blockSize : Int)
    omega

theorem Ok.removeSkippedBlocks (hm : m ∈ mambaManagers) {n : Nat}
    (henabled : Enabled mambaManagers sinkBlocks m requestId s (.removeSkippedBlocks n))
    (hstep : step m requestId s (.removeSkippedBlocks n) = .ok s') : Ok mambaManagers sinkBlocks m requestId s' := by
  obtain ⟨hidle, hdrafts, hnew⟩ := henabled
  obtain ⟨s₁, hrun, hstep⟩ := bind_eq_ok.mp hstep
  cases hstep
  obtain ⟨managers, rfl, hreachable, hallocated, hlen, hkept⟩ := removeSkippedBlocks_blocks h hm hdrafts hrun
  have hnone := h.not_scheduled (by rw [hidle]; decide) (by rw [hidle]; decide)
  refine ⟨hreachable, h.rejected_le, fun _ => hdrafts, ?_, ?_, ?_⟩
  · constructor
    · exact fun hne => absurd hnone hne
    · rintro (h | h) <;> cases h
  · intro hnot
    have hfresh := h.fresh (mt hallocated.mpr hnot)
    have hnil := hfresh.nil (by rw [hidle]; decide)
    refine ⟨hfresh.numComputedTokens, fun _ => ?_, fun hready => (by cases hready), hfresh.mambaStateIdx, ?_,
      hfresh.numScheduledTokens⟩
    · exact List.length_eq_zero_iff.mp (by rw [← List.length_eq_zero_iff.mpr hnil]; exact hlen)
    · show s.skipped ++ freedPositions (s.blocks m requestId) _ = []
      rw [hfresh.skipped, hnil]
      rfl
  · intro hreq
    obtain ⟨q, htable⟩ := h.table (hallocated.mp hreq)
    have hpos := htable.executed hnone
    -- a request with computed tokens is not looked up in the cache
    have hn : n = 0 := by
      unfold State.numVerifiedTokens at hpos
      omega
    have hkept := hkept hn
    have hverified := htable.verified_le
    refine ⟨q, htable.slots_le, htable.lt_slots, hlen.trans htable.length, ?_, hn, htable.computed_le,
      htable.scheduled, htable.executed, ?_, ?_, ?_⟩
    · intro p hle hlt
      exact (htable.holds p hle hlt).congr (hkept p (hverified.trans (Nat.mul_le_mul_right _ hle)))
    · intro p hp
      rcases List.mem_append.mp hp with hp | hp
      · exact htable.skipped p hp
      · by_contra hle
        have hfreed := (List.mem_filter.mp hp).2
        simp only [decide_eq_true_eq] at hfreed
        exact hfreed (hkept p (not_lt.mp hle))
    · intro w hw
      obtain ⟨p, hwp, hlt, hle, hholds⟩ := htable.state w hw
      exact ⟨p, hwp, hlt, hle, hholds.congr (hkept p hle)⟩
    · intro hdecode hdrafts hlt
      have hlt : s.numVerifiedTokens + m.kvCacheSpec.blockSize < q * m.kvCacheSpec.blockSize := hlt
      apply (htable.previous hdecode hdrafts hlt).congr
      apply hkept
      rw [show q - 2 + 1 = q - 1 by have := two_le_of_lt hlt; omega, Nat.sub_mul]
      omega

theorem Ok.noSlots (hbegun : s.phase = .begun) :
    Ok mambaManagers sinkBlocks m requestId { s with phase := .idle, numNewComputedTokens := 0 } where
  managers := h.managers
  rejected_le := h.rejected_le
  rejected_le_drafts := fun hne => absurd rfl hne
  scheduled_iff := by
    have hnone := h.not_scheduled (by rw [hbegun]; decide) (by rw [hbegun]; decide)
    simp [hnone]
  fresh := by
    intro hnew
    have hfresh := h.fresh hnew
    exact { hfresh with
      nil := fun _ => hfresh.nil (by rw [hbegun]; decide)
      hits := fun hready => (by cases hready) }
  table := by
    intro hreq
    obtain ⟨q, htable⟩ := h.table hreq
    exact ⟨q, { htable with numNewComputedTokens := rfl }⟩

theorem Ok.noComputedBlocks (hbegun : s.phase = .begun) (hnone : s.numNewComputedTokens = 0) :
    Ok mambaManagers sinkBlocks m requestId { s with phase := .ready } where
  managers := h.managers
  rejected_le := h.rejected_le
  rejected_le_drafts := fun _ => h.rejected_le_drafts (by rw [hbegun]; decide)
  scheduled_iff := by
    have hnone := h.not_scheduled (by rw [hbegun]; decide) (by rw [hbegun]; decide)
    simp [hnone]
  fresh := by
    intro hnew
    have hfresh := h.fresh hnew
    have hnil := hfresh.nil (by rw [hbegun]; decide)
    refine { hfresh with nil := fun hne => absurd rfl hne, hits := fun _ => ?_ }
    show (s.blocks m requestId).length * _ = s.numNewComputedTokens
    rw [hnil, hnone]
    exact Nat.zero_mul _
  table := by
    intro hreq
    obtain ⟨q, htable⟩ := h.table hreq
    exact ⟨q, { htable with }⟩

theorem Ok.allocateNewComputedBlocks (hm : m ∈ mambaManagers) {hits : List Nat}
    (henabled : Enabled mambaManagers sinkBlocks m requestId s (.allocateNewComputedBlocks hits))
    (hstep : step m requestId s (.allocateNewComputedBlocks hits) = .ok s') :
    Ok mambaManagers sinkBlocks m requestId s' := by
  obtain ⟨hbegun, hnone, hnew, hcaching, hcomputed⟩ := henabled
  obtain ⟨s₁, hrun, hstep⟩ := bind_eq_ok.mp hstep
  cases hstep
  have hscheduled := h.not_scheduled (by rw [hbegun]; decide) (by rw [hbegun]; decide)
  have hfreshReq : ¬ s.Allocated m requestId := by
    intro hreq
    obtain ⟨q, htable⟩ := h.table hreq
    have := htable.executed hscheduled
    unfold State.numVerifiedTokens at this
    omega
  have hfresh := h.fresh hfreshReq
  obtain ⟨st, managers, hst, rfl, hreachable, hkv, hreqs⟩ := h.apply hm
    (show m.Enabled _ _ (.allocateNewComputedBlocks requestId hits _) from ⟨hcaching, hcomputed⟩) hrun
  have hnil : (s.managers.mambaState m).kv.blocksOf (m.row requestId) = [] :=
    hfresh.nil (by rw [hbegun]; decide)
  have htotal : ((s.numComputedTokens + s.numNewComputedTokens : Nat) : Int) = hits.length * m.blockSize := by
    rw [hnone, Nat.zero_add, hnew]
    exact Nat.cast_mul _ _
  obtain ⟨hlength, hsame⟩ := allocateNewComputedBlocks_length hnil htotal hst
  have hstill : ¬ requestId ∈ (managers.mambaState m).allocatedBlockReqs := by
    rw [hreqs, hsame]
    exact hfreshReq
  refine ⟨hreachable, h.rejected_le, fun _ => h.rejected_le_drafts (by rw [hbegun]; decide), ?_, ?_,
    fun hreq => absurd hreq hstill⟩
  · constructor
    · exact fun hne => absurd hscheduled hne
    · rintro (h | h) <;> cases h
  · intro _
    refine { hfresh with nil := fun hne => absurd rfl hne, hits := fun _ => ?_ }
    show (managers.kv.blocksOf (m.row requestId)).length * _ = s.numNewComputedTokens
    rw [hkv, hlength, hnew]

end

/-! ### New blocks -/

omit [DecidableEq κ] in
theorem exists_lastBlock (m : MambaManager) (a : Nat) :
    ∃ q, a ≤ q * m.kvCacheSpec.blockSize ∧ q * m.kvCacheSpec.blockSize < a + m.kvCacheSpec.blockSize := by
  have hpos := m.blockSize_pos
  generalize m.kvCacheSpec.blockSize = b at hpos ⊢
  have hdiv := Nat.div_add_mod (a + b - 1) b
  have hmod := Nat.mod_lt (a + b - 1) hpos
  rw [Nat.mul_comm] at hdiv
  exact ⟨(a + b - 1) / b, by omega, by omega⟩

omit [DecidableEq κ] in
/-- The table when it has grown for a step of `n` tokens, which end in the `q'`th block. -/
theorem Table.grow {blocks' : List Nat} (h : Table m blocks s q) (hnone : s.numScheduledTokens = 0) {n q' : Nat}
    (hn : 0 < n) (hle' : s.numTokensMainModel n ≤ q' * m.kvCacheSpec.blockSize)
    (hlt' : q' * m.kvCacheSpec.blockSize < s.numTokensMainModel n + m.kvCacheSpec.blockSize)
    (hrejected : s.numRejected = 0 ∨
      m.numSpeculativeBlocks < m.kvCacheSpec.blockSize ∧ n ≤ m.numSpeculativeBlocks + 1) (hq : q ≤ q')
    (hlength : blocks'.length = q' + m.numSpeculativeBlocks) (hkept : ∀ p, p < q → blocks'[p]? = blocks[p]?)
    (hholds : ∀ p, q' ≤ p + 1 → p < q' + m.numSpeculativeBlocks → HoldsBlock blocks' p) (managers : Managers κ) :
    Table m blocks' { s with
      managers
      phase := .allocated
      numComputedTokens := s.numComputedTokens + s.numNewComputedTokens
      numNewComputedTokens := 0
      numScheduledTokens := n
      numSlots := s.numTokensMainModel n } q' := by
  have hnew := h.numNewComputedTokens
  have hverified : s.numComputedTokens + s.numNewComputedTokens - s.numRejected = s.numVerifiedTokens := by
    unfold State.numVerifiedTokens
    omega
  have hbound := h.computed_le
  have hslots := h.slots_le
  refine ⟨hle', hlt', hlength, hholds, rfl, ?_, ?_, ?_, ?_, ?_, ?_⟩
  · exact le_rfl
  · exact fun _ => ⟨rfl, hrejected⟩
  · exact fun hzero => absurd hzero hn.ne'
  · intro p hp
    show _ < s.numComputedTokens + s.numNewComputedTokens - s.numRejected
    rw [hverified]
    exact h.skipped p hp
  · intro w hw
    obtain ⟨p, hwp, hlt, hle, hp⟩ := h.state w hw
    refine ⟨p, hwp, hlt.trans_le hq, ?_, hp.congr (hkept p hlt)⟩
    show s.numComputedTokens + s.numNewComputedTokens - s.numRejected ≤ _
    rw [hverified]
    exact hle
  · intro hdecode hdrafts hlt
    have hlt : s.numComputedTokens + s.numNewComputedTokens - s.numRejected + m.kvCacheSpec.blockSize <
        q' * m.kvCacheSpec.blockSize := hlt
    have hdecode : n ≤ m.numSpeculativeBlocks + 1 := hdecode
    rw [hverified] at hlt
    -- a decode step is at most one block ahead
    have hnext : q' ≤ q + 1 := by
      by_contra hgt
      have := Nat.mul_le_mul_right m.kvCacheSpec.blockSize (show q + 2 ≤ q' by omega)
      rw [Nat.add_mul] at this
      unfold State.numTokensMainModel at hlt'
      omega
    have hq2 := two_le_of_lt hlt
    obtain rfl | rfl : q' = q ∨ q' = q + 1 := by omega
    · exact (h.previous (by omega) hdrafts hlt).congr (hkept _ (by omega))
    · exact (h.holds (q - 1) (by omega) (by omega)).congr (hkept _ (by omega))

section

variable (h : Ok mambaManagers sinkBlocks m requestId s)
include h

theorem Ok.allocateNewBlocks (hm : m ∈ mambaManagers) {useEagle : Bool} {numPromptTokens numTokens numNewTokens : Nat}
    (henabled : Enabled mambaManagers sinkBlocks m requestId s
      (.allocateNewBlocks useEagle numPromptTokens numTokens numNewTokens))
    (hmeets : s.numRejected = 0 ∨ m.numSpeculativeBlocks < m.kvCacheSpec.blockSize)
    (hstep : step m requestId s (.allocateNewBlocks useEagle numPromptTokens numTokens numNewTokens) = .ok s') :
    Ok mambaManagers sinkBlocks m requestId s' := by
  obtain ⟨hready, hn, hdecode⟩ := henabled
  dsimp only [step] at hstep
  generalize s.alignedSplit m useEagle numPromptTokens numTokens numNewTokens = n at hn hdecode hstep
  have hrejected : s.numRejected = 0 ∨
      m.numSpeculativeBlocks < m.kvCacheSpec.blockSize ∧ n ≤ m.numSpeculativeBlocks + 1 := by
    by_cases hzero : s.numRejected = 0
    · exact Or.inl hzero
    · exact Or.inr ⟨hmeets.resolve_left hzero, hdecode hzero⟩
  obtain ⟨s₁, hrun, hstep⟩ := bind_eq_ok.mp hstep
  cases hstep
  have hnone := h.not_scheduled (by rw [hready]; decide) (by rw [hready]; decide)
  obtain ⟨q', hle', hlt'⟩ := exists_lastBlock m (s.numTokensMainModel n)
  have hq' := cdiv_eq_of hle' hlt'
  -- the hits of a new request are the blocks of tokens before the last one
  have hhits : requestId ∉ (s.managers.mambaState m).allocatedBlockReqs →
      (s.blocks m requestId).length * m.kvCacheSpec.blockSize = s.numNewComputedTokens :=
    fun hnew => (h.fresh hnew).hits hready
  obtain ⟨st, managers, hst, rfl, hreachable, hkv, hreqs⟩ := h.apply hm
    (show m.Enabled _ _ (.allocateNewBlocks requestId _) from fun hnew => by
      show ((s.blocks m requestId).length : Int) * (m.kvCacheSpec.blockSize : Int) ≤ _
      have := hhits hnew
      exact_mod_cast (by omega : (s.blocks m requestId).length * m.kvCacheSpec.blockSize ≤
        s.numComputedTokens + s.numNewComputedTokens + n)) hrun
  obtain ⟨⟨newBlocks, st'⟩, hallocate, hst⟩ := bind_eq_ok.mp hst
  cases hst
  obtain ⟨⟨cfg, l, hsinks, hok, -⟩, hbehind⟩ := h.managers.ok
  have hphase : n ≠ 0 ↔ Phase.allocated = .allocated ∨ Phase.allocated = .scheduled := by simp [hn.ne']
  by_cases hreq : s.Allocated m requestId
  · obtain ⟨q, htable⟩ := h.table hreq
    obtain ⟨hq, hlength, hkept, hholds, hmem⟩ := allocateNewBlocks_allocated hok hreq
      ((hbehind m hm).of_allocated hreq) htable.length htable.holds hq' hallocate
    rw [← hkv] at hlength hkept hholds
    rw [← hreqs] at hmem
    refine ⟨hreachable, ?_, fun _ => h.rejected_le_drafts (by rw [hready]; decide), hphase,
      fun hnot => absurd hmem hnot, fun _ => ⟨q', ?_⟩⟩
    · exact h.rejected_le.trans (Nat.le_add_right _ _)
    · exact htable.grow hnone hn hle' hlt' hrejected hq hlength hkept hholds managers
  · have hfresh := h.fresh hreq
    have hlen := hhits hreq
    have hlt : (s.blocks m requestId).length < q' := by
      apply Nat.lt_of_mul_lt_mul_right (a := m.kvCacheSpec.blockSize)
      unfold State.numTokensMainModel at hle'
      omega
    obtain ⟨hlength, hholds, hmem⟩ := allocateNewBlocks_new hok hreq hlt hq' hallocate
    rw [← hkv] at hlength hholds
    rw [← hreqs] at hmem
    have hzero : s.numRejected = 0 := by
      have := h.rejected_le
      have := hfresh.numComputedTokens
      omega
    refine ⟨hreachable, ?_, fun _ => h.rejected_le_drafts (by rw [hready]; decide), hphase,
      fun hnot => absurd hmem hnot, fun _ => ⟨q', hle', hlt', hlength, hholds, rfl, le_rfl,
        fun _ => ⟨rfl, hrejected⟩, fun hnone => absurd hnone hn.ne', ?_, ?_, ?_⟩⟩
    · exact h.rejected_le.trans (Nat.le_add_right _ _)
    · intro p hp
      rw [hfresh.skipped] at hp
      cases hp
    · intro w hw
      cases hfresh.mambaStateIdx.symm.trans hw
    · -- the first step of a request ends in the block after its hits, if it is a short one
      intro hdecode hdrafts hlt
      have hlt : s.numComputedTokens + s.numNewComputedTokens - s.numRejected + m.kvCacheSpec.blockSize <
        q' * m.kvCacheSpec.blockSize := hlt
      have hdecode : n ≤ m.numSpeculativeBlocks + 1 := hdecode
      have hnext := Nat.mul_le_mul_right m.kvCacheSpec.blockSize (show (s.blocks m requestId).length + 2 ≤ q' by
        by_contra hgt
        obtain rfl : q' = (s.blocks m requestId).length + 1 := by omega
        rw [Nat.add_mul] at hlt
        omega)
      rw [Nat.add_mul] at hnext
      have := hfresh.numComputedTokens
      unfold State.numTokensMainModel at hlt'
      omega

/-! ### The step of the worker -/

/-- A request with a scheduled step was given blocks. -/
theorem Ok.table_of_scheduled (hphase : s.phase = .allocated ∨ s.phase = .scheduled) :
    s.Allocated m requestId ∧ ∃ q, Table m (s.blocks m requestId) s q := by
  by_cases hreq : s.Allocated m requestId
  · exact ⟨hreq, h.table hreq⟩
  · exact absurd (h.fresh hreq).numScheduledTokens (h.scheduled_iff.mpr hphase)

theorem Ok.scheduled (hallocated : s.phase = .allocated) :
    Ok mambaManagers sinkBlocks m requestId { s with phase := .scheduled } where
  managers := h.managers
  rejected_le := h.rejected_le
  rejected_le_drafts := fun _ => h.rejected_le_drafts (by rw [hallocated]; decide)
  scheduled_iff := ⟨fun _ => Or.inr rfl, fun _ => h.scheduled_iff.mpr (Or.inl hallocated)⟩
  fresh := fun hnew => absurd (h.table_of_scheduled (Or.inl hallocated)).1 hnew
  table := by
    intro hreq
    obtain ⟨q, htable⟩ := h.table hreq
    exact ⟨q, { htable with }⟩

theorem Ok.cacheBlocks (hm : m ∈ mambaManagers) {numBlockHashes numTokens : Nat} {blockHashes : List κ}
    (henabled : Enabled mambaManagers sinkBlocks m requestId s (.cacheBlocks numBlockHashes blockHashes numTokens))
    (hstep : step m requestId s (.cacheBlocks numBlockHashes blockHashes numTokens) = .ok s') :
    Ok mambaManagers sinkBlocks m requestId s' := by
  obtain ⟨hallocated, hcaching, hnum, hlen⟩ := henabled
  obtain ⟨s₁, hrun, hstep⟩ := bind_eq_ok.mp hstep
  cases hstep
  obtain ⟨hreq, q, htable⟩ := h.table_of_scheduled (Or.inl hallocated)
  -- only tokens with a slot are cached
  have hfull : min (s.numComputedTokens + s.numScheduledTokens) numTokens / m.kvCacheSpec.blockSize ≤ q := by
    have := htable.computed_le
    have := htable.slots_le
    exact Nat.div_le_of_le_mul (by rw [Nat.mul_comm]; omega)
  have hcast : ((min (s.numComputedTokens + s.numScheduledTokens) numTokens : Nat) / m.blockSize : Int).toNat =
      min (s.numComputedTokens + s.numScheduledTokens) numTokens / m.kvCacheSpec.blockSize := rfl
  obtain ⟨⟨cfg, l, hsinks, hok, -⟩, -⟩ := h.managers.ok
  obtain ⟨st, managers, hst, rfl, hreachable, hkv, hreqs⟩ := h.apply hm
    (show m.Enabled _ _ (.cacheBlocks requestId _ _ _) from ⟨hcaching, by rw [hcast]; exact hnum,
      by rw [hcast]; exact hlen, by
        exact le_of_le_of_eq (Nat.add_le_add_right hfull _) htable.length.symm⟩) hrun
  obtain ⟨kv, hashes, rfl, -, -, htables, -⟩ := cacheBlocks_spec hok (hok.pool.enableCaching.symm.trans hcaching)
    (by rw [hcast]; exact hnum) (by rw [hcast]; exact hlen) hst
  have hblocks : managers.kv.blocksOf (m.row requestId) = s.managers.kv.blocksOf (m.row requestId) := by
    rw [hkv]
    exact congrArg (fun d => (d.get? (m.row requestId)).getD []) htables
  exact (h.withManagers hreachable hblocks (by rw [hreqs])).scheduled hallocated

end

omit [DecidableEq κ] in
/-- The worker keeps the running state where there is a block: in the block where the scheduler sees the
step end, or in the one before it when the scheduler does not know of the rejected drafts yet. -/
theorem Table.holds_running (h : Table m blocks s q) (hn : s.numScheduledTokens ≠ 0)
    (hrejected : s.numRejected ≤ s.numComputedTokens) (hdrafts : s.numRejected ≤ m.numSpeculativeBlocks) {q' : Nat}
    (hle : s.numVerifiedTokens + s.numScheduledTokens ≤ q' * m.kvCacheSpec.blockSize)
    (hlt : q' * m.kvCacheSpec.blockSize < s.numVerifiedTokens + s.numScheduledTokens + m.kvCacheSpec.blockSize) :
    0 < q' ∧ q' ≤ q ∧ HoldsBlock blocks (q' - 1) := by
  obtain ⟨hend, hlag⟩ := h.scheduled hn
  have hslots := h.slots_le
  have hslots' := h.lt_slots
  have hverified : s.numVerifiedTokens + s.numRejected = s.numComputedTokens := by
    unfold State.numVerifiedTokens
    omega
  have hpos : 0 < q' := by
    apply Nat.pos_of_ne_zero
    rintro rfl
    omega
  have hq' : q' ≤ q := by
    apply Nat.le_of_lt_succ
    apply Nat.lt_of_mul_lt_mul_right (a := m.kvCacheSpec.blockSize)
    rw [Nat.succ_mul]
    omega
  refine ⟨hpos, hq', ?_⟩
  rcases hlag with hzero | ⟨hsmall, hdecode⟩
  · have hq : q ≤ q' := by
      apply Nat.le_of_lt_succ
      apply Nat.lt_of_mul_lt_mul_right (a := m.kvCacheSpec.blockSize)
      rw [Nat.succ_mul]
      omega
    obtain rfl := le_antisymm hq hq'
    exact h.holds (q - 1) (by omega) (by omega)
  · have hq : q < q' + 2 := by
      apply Nat.lt_of_mul_lt_mul_right (a := m.kvCacheSpec.blockSize)
      rw [Nat.add_mul]
      omega
    obtain rfl | rfl : q = q' ∨ q = q' + 1 := by omega
    · exact h.holds (q - 1) (by omega) (by omega)
    · apply h.previous hdecode hsmall
      rw [Nat.add_mul]
      omega

section

variable (h : Ok mambaManagers sinkBlocks m requestId s)
include h

theorem Ok.executeModel {numRejected : Nat}
    (henabled : Enabled mambaManagers sinkBlocks m requestId s (.executeModel numRejected))
    (hstep : step m requestId s (.executeModel numRejected) = .ok s') : Ok mambaManagers sinkBlocks m requestId s' := by
  obtain ⟨hphase, hdrafts, hlt, hdecode⟩ := henabled
  cases hstep
  obtain ⟨hreq, q, htable⟩ := h.table_of_scheduled (Or.inr hphase)
  have hn : s.numScheduledTokens ≠ 0 := by omega
  have hrejected := h.rejected_le
  refine ⟨h.managers, ?_, fun hne => absurd rfl hne, ?_, fun hnew => absurd hreq hnew, fun _ => ⟨q, ?_⟩⟩
  · show s.numRejected + numRejected ≤ s.numComputedTokens + s.numScheduledTokens
    omega
  · constructor
    · exact fun hne => absurd rfl hne
    · rintro (h | h) <;> cases h
  · obtain ⟨q', hle', hlt'⟩ := exists_lastBlock m (s.numVerifiedTokens + s.numScheduledTokens)
    obtain ⟨hpos, hq', hholds⟩ :=
      htable.holds_running hn hrejected (h.rejected_le_drafts (by rw [hphase]; decide)) hle' hlt'
    have hverified : s.numComputedTokens + s.numScheduledTokens - (s.numRejected + numRejected) + numRejected =
        s.numVerifiedTokens + s.numScheduledTokens := by
      unfold State.numVerifiedTokens
      omega
    obtain ⟨hend, hlag⟩ := htable.scheduled hn
    refine ⟨htable.slots_le, htable.lt_slots, htable.length, htable.holds, htable.numNewComputedTokens, ?_,
      fun hne => absurd rfl hne, ?_, ?_, ?_, ?_⟩
    · exact hend.le
    · intro _
      show 0 < s.numComputedTokens + s.numScheduledTokens - (s.numRejected + numRejected)
      omega
    · intro p hp
      have hp := htable.skipped p hp
      show _ < s.numComputedTokens + s.numScheduledTokens - (s.numRejected + numRejected)
      omega
    · intro w hw
      cases hw
      refine ⟨q' - 1, ?_, by omega, ?_, hholds⟩
      · have hcdiv := cdiv_eq_of hle' hlt'
        unfold MambaManager.currStateIdx MambaManager.numRequiredBlocks
        rw [Nat.cast_add] at hcdiv
        omega
      · show s.numComputedTokens + s.numScheduledTokens - (s.numRejected + numRejected) ≤ _
        rw [Nat.sub_add_cancel hpos]
        omega
    · intro _ hsmall hbefore
      have hbefore : s.numComputedTokens + s.numScheduledTokens - (s.numRejected + numRejected) +
        m.kvCacheSpec.blockSize < q * m.kvCacheSpec.blockSize := hbefore
      have hslots := htable.lt_slots
      -- without rejected drafts the tokens end in the last block
      have hshort : s.numScheduledTokens ≤ m.numSpeculativeBlocks + 1 := by
        rcases hlag with hzero | ⟨-, hshort⟩
        · exact hdecode (by omega)
        · exact hshort
      exact htable.previous hshort hsmall (by omega)

theorem Ok.updateFromOutput {numRejected : Nat} (hidle : s.phase = .idle) (hle : numRejected ≤ s.numRejected) :
    Ok mambaManagers sinkBlocks m requestId { s with
      numComputedTokens := s.numComputedTokens - numRejected
      numRejected := s.numRejected - numRejected } := by
  have hrejected := h.rejected_le
  have hnone := h.not_scheduled (by rw [hidle]; decide) (by rw [hidle]; decide)
  have hverified : s.numComputedTokens - numRejected - (s.numRejected - numRejected) = s.numVerifiedTokens := by
    unfold State.numVerifiedTokens
    omega
  refine ⟨h.managers, ?_, fun hne => absurd hidle hne, h.scheduled_iff, ?_, ?_⟩
  · exact Nat.sub_le_sub_right hrejected _
  · intro hnew
    have hfresh := h.fresh hnew
    refine { hfresh with numComputedTokens := ?_ }
    rw [hfresh.numComputedTokens, Nat.zero_sub]
  · intro hreq
    obtain ⟨q, htable⟩ := h.table hreq
    refine ⟨q, htable.slots_le, htable.lt_slots, htable.length, htable.holds, htable.numNewComputedTokens, ?_,
      fun hne => absurd hnone hne, ?_, ?_, ?_, ?_⟩
    · exact (Nat.add_le_add_right (Nat.sub_le _ _) _).trans htable.computed_le
    · intro _
      exact lt_of_lt_of_eq (htable.executed hnone) hverified.symm
    · intro p hp
      exact lt_of_lt_of_eq (htable.skipped p hp) hverified.symm
    · intro w hw
      obtain ⟨p, hwp, hlt, hle, hp⟩ := htable.state w hw
      exact ⟨p, hwp, hlt, hverified.le.trans hle, hp⟩
    · intro hdecode hsmall hbefore
      have hbefore : s.numComputedTokens - numRejected - (s.numRejected - numRejected) +
        m.kvCacheSpec.blockSize < q * m.kvCacheSpec.blockSize := hbefore
      rw [hverified] at hbefore
      exact htable.previous hdecode hsmall hbefore

theorem Ok.free (hm : m ∈ mambaManagers) (hstep : step m requestId s .free = .ok s') :
    Ok mambaManagers sinkBlocks m requestId s' := by
  obtain ⟨s₁, hrun, hstep⟩ := bind_eq_ok.mp hstep
  cases hstep
  obtain ⟨⟨cfg, l, hsinks, hok, -⟩, -⟩ := h.managers.ok
  obtain ⟨st, managers, hst, rfl, hreachable, hkv, hreqs⟩ := h.apply hm
    (show m.Enabled _ _ (.free requestId) from trivial) hrun
  obtain ⟨-, -, -, hfreed⟩ := free_spec hok hst
  apply Ok.start hreachable
  · rw [hkv]
    exact free_blocksOf hok hst
  · rw [hreqs, hfreed]
    simp

/-! ### All runs -/

theorem Ok.step (hm : m ∈ mambaManagers) {event : Event κ}
    (henabled : Enabled mambaManagers sinkBlocks m requestId s event) (hmeets : Meets m requestId s event)
    (hstep : step m requestId s event = .ok s') : Ok mambaManagers sinkBlocks m requestId s' := by
  cases event with
  | other op =>
    obtain ⟨managers, hmanagers, hstep⟩ := bind_eq_ok.mp hstep
    cases hstep
    obtain ⟨henabled, helsewhere⟩ := henabled
    obtain ⟨hblocks, hreqs⟩ := Managers.step_elsewhere h.managers hm henabled helsewhere hmanagers
    exact h.withManagers (h.managers.step henabled hmanagers) hblocks hreqs
  | removeSkippedBlocks n => exact h.removeSkippedBlocks hm henabled hstep
  | noSlots =>
    cases hstep
    exact h.noSlots henabled
  | allocateNewComputedBlocks hits => exact h.allocateNewComputedBlocks hm henabled hstep
  | noComputedBlocks =>
    cases hstep
    exact h.noComputedBlocks henabled.1 henabled.2
  | allocateNewBlocks useEagle numPromptTokens numTokens numNewTokens =>
    exact h.allocateNewBlocks hm henabled hmeets.2 hstep
  | cacheBlocks numBlockHashes blockHashes numTokens => exact h.cacheBlocks hm henabled hstep
  | noCacheBlocks =>
    cases hstep
    exact h.scheduled henabled
  | executeModel numRejected => exact h.executeModel henabled hstep
  | updateFromOutput numRejected =>
    cases hstep
    exact h.updateFromOutput henabled.1 henabled.2
  | free => exact h.free hm hstep

end

theorem Reachable.ok (hm : m ∈ mambaManagers)
    (h : Reachable mambaManagers sinkBlocks m requestId (Meets m requestId) s) :
    Ok mambaManagers sinkBlocks m requestId s := by
  induction h with
  | start h hnil hnew => exact Ok.start h hnil hnew
  | step _ henabled hmeets hstep ih => exact ih.step hm henabled hmeets hstep

/-! ## What holds of a run -/

/-- All managers keep the invariant of the pool, and speculative blocks are not cached. -/
theorem managers_share_pool (h : managers.Reachable mambaManagers sinkBlocks) :
    PoolRuns.PoolInvariant sinkBlocks managers.kv ∧ ∀ m ∈ mambaManagers, m.Behind (managers.mambaState m) := by
  obtain ⟨⟨cfg, l, rfl, hok, -⟩, hbehind⟩ := h.ok
  exact ⟨PoolRuns.poolInvariant_of_ok hok, hbehind⟩

section

variable (h : Ok mambaManagers sinkBlocks m requestId s)
include h

/-- An allocation fails its assertions exactly when the step ends in an earlier block than the one before. -/
theorem Ok.asserts_iff (hm : m ∈ mambaManagers) (hready : s.phase = .ready) (n : Nat) :
    (∃ msg, m.allocateNewBlocks (s.managers.mambaState m) requestId (s.numTokensMainModel n) =
        .error (.assertionError msg)) ↔ ¬ KeepsBlocks m requestId s n := by
  obtain ⟨⟨cfg, l, hsinks, hok, -⟩, hbehind⟩ := h.managers.ok
  have hhits : requestId ∉ (s.managers.mambaState m).allocatedBlockReqs →
      ((s.blocks m requestId).length : Int) ≤ cdiv (s.numTokensMainModel n) m.blockSize := by
    intro hnew
    apply le_cdiv m.blockSize_pos'
    have := (h.fresh hnew).hits hready
    show _ * (m.kvCacheSpec.blockSize : Int) ≤ _
    exact_mod_cast (by omega : (s.blocks m requestId).length * m.kvCacheSpec.blockSize ≤
      s.numComputedTokens + s.numNewComputedTokens + n)
  rw [allocateNewBlocks_asserts hok (hbehind m hm).of_allocated hhits]
  show cdiv _ m.blockSize + (m.numSpeculativeBlocks : Int) < ((s.blocks m requestId).length : Int) ↔ _
  unfold KeepsBlocks
  by_cases hreq : s.Allocated m requestId
  · obtain ⟨q, htable⟩ := h.table hreq
    rw [htable.length, cdiv_eq_of htable.slots_le htable.lt_slots]
    constructor
    · intro hlt hkeeps
      have := hkeeps hreq
      omega
    · intro hnot
      by_contra hle
      exact hnot fun _ => by omega
  · have := hhits hreq
    constructor
    · intro hlt
      omega
    · exact fun hnot => absurd (fun h => absurd h hreq) hnot

/-- The running state stands in a block of the request, and this block stands nowhere else. -/
theorem Ok.running_block {w : Int} (hw : s.mambaStateIdx = some w) :
    ∃ (p : Nat) (b : Nat), w = p ∧ (s.blocks m requestId)[p]? = some b ∧ b ≠ s.managers.kv.pool.nullBlock ∧
      (s.blocks m requestId).count b = 1 := by
  obtain ⟨⟨cfg, l, hsinks, hok, -⟩, -⟩ := h.managers.ok
  by_cases hreq : s.Allocated m requestId
  · obtain ⟨q, htable⟩ := h.table hreq
    obtain ⟨p, rfl, -, -, b, hb, hne⟩ := htable.state w hw
    refine ⟨p, b, rfl, hb, ?_, ?_⟩
    · rw [hok.pool.nullBlock]
      exact hne
    · apply le_antisymm
      · exact KVState.count_le_one (hok.nodup (m.row requestId)) hne
      · exact List.count_pos_iff.mpr (List.mem_of_getElem? hb)
  · cases (h.fresh hreq).mambaStateIdx.symm.trans hw

/-- Positions that were skipped lie before all that the worker reads. -/
theorem Ok.not_read (hphase : s.phase = .scheduled) (acceptTokenBias : Nat) {p : Nat} (hp : p ∈ s.skipped) :
    (p : Int) ∉ m.stateReads s.mambaStateIdx s.numVerifiedTokens s.numScheduledTokens acceptTokenBias := by
  obtain ⟨-, q, htable⟩ := h.table_of_scheduled (Or.inr hphase)
  have hpos := m.blockSize_pos'
  have hbefore : ((p : Int) + 1) * m.blockSize < s.numVerifiedTokens := by
    show _ * (m.kvCacheSpec.blockSize : Int) < _
    exact_mod_cast htable.skipped p hp
  -- the state of the last step, or the hit of a new request
  have hprev : (p : Int) < s.mambaStateIdx.getD (((s.numVerifiedTokens : Int) - 1) / m.blockSize) := by
    cases hw : s.mambaStateIdx with
    | none =>
      show (p : Int) < ((s.numVerifiedTokens : Int) - 1) / m.blockSize
      rw [Int.lt_iff_add_one_le, Int.le_ediv_iff_mul_le hpos]
      omega
    | some w =>
      obtain ⟨p', rfl, -, hle, -⟩ := htable.state w hw
      have hlt := lt_of_lt_of_le (htable.skipped p hp) hle
      have := Nat.lt_of_mul_lt_mul_right hlt
      show (p : Int) < p'
      omega
  have hcurr : (p : Int) < m.currStateIdx s.numVerifiedTokens s.numScheduledTokens := by
    have hlt := (lt_cdiv_iff hpos).mpr
      (show ((p : Int) + 1) * m.blockSize < s.numVerifiedTokens + s.numScheduledTokens by omega)
    unfold MambaManager.currStateIdx MambaManager.numRequiredBlocks
    omega
  intro hmem
  rcases List.mem_append.mp hmem with hmem | hmem
  · split at hmem
    · rcases List.mem_cons.mp hmem with heq | hmem
      · omega
      · have := List.mem_singleton.mp hmem
        omega
    · cases hmem
  · obtain ⟨offset, hoffset, heq⟩ := List.mem_map.mp hmem
    simp only [List.bind_eq_flatMap, List.pure_def, List.mem_flatMap, List.mem_singleton] at hoffset
    omega

end

/-- In a run whose steps do not end in an earlier block than the steps before them, an allocation never fails
its assertions; the running state always has a block to itself; and skipped blocks are not read. -/
theorem align_mode_keeps_table (hm : m ∈ mambaManagers)
    (h : Reachable mambaManagers sinkBlocks m requestId (Meets m requestId) s) :
    (s.phase = .ready → ∀ n, ((∃ msg, m.allocateNewBlocks (s.managers.mambaState m) requestId (s.numTokensMainModel n) =
        .error (.assertionError msg)) ↔ ¬ KeepsBlocks m requestId s n)) ∧ (∀ w, s.mambaStateIdx = some w →
      ∃ (p : Nat) (b : Nat), w = p ∧ (s.blocks m requestId)[p]? = some b ∧
        b ≠ s.managers.kv.pool.nullBlock ∧ (s.blocks m requestId).count b = 1) ∧
    (s.phase = .scheduled → ∀ acceptTokenBias : Nat, ∀ p ∈ s.skipped,
      (p : Int) ∉ m.stateReads s.mambaStateIdx s.numVerifiedTokens s.numScheduledTokens acceptTokenBias) := by
  have hok := h.ok hm
  refine ⟨fun hready n => hok.asserts_iff hm hready n, fun w hw => hok.running_block hw, ?_⟩
  exact fun hphase bias p hp => hok.not_read hphase bias hp

end Invariant

/-! ## A step without drafts after rejected drafts -/

/-- The state after an event that succeeds. -/
def State.next {κ : Type} [DecidableEq κ] (m : MambaManager) (requestId : Nat) (s : State κ) (event : Event κ) :
    State κ :=
  match step m requestId s event with
  | .ok s' => s'
  | .error _ => s

theorem Reachable.next {κ : Type} [DecidableEq κ] {mambaManagers : List MambaManager} {sinkBlocks : List Nat}
    {m : MambaManager} {requestId : Nat} {condition : State κ → Event κ → Prop} {s : State κ}
    (h : Reachable mambaManagers sinkBlocks m requestId condition s) (event : Event κ)
    (henabled : Enabled mambaManagers sinkBlocks m requestId s event) (hcondition : condition s event)
    (hok : (MambaRuns.step m requestId s event).isOk = true) :
    Reachable mambaManagers sinkBlocks m requestId condition (s.next m requestId event) := by
  apply h.step henabled hcondition
  unfold State.next
  cases hstep : MambaRuns.step m requestId s event with
  | ok s' => rfl
  | error e =>
    rw [hstep] at hok
    cases hok

/-- Blocks of four tokens, and two speculative blocks. -/
def twoDrafts : MambaManager where
  kvCacheSpec := ⟨4, .mamba, 0⟩
  kvCacheGroupId := 0
  numSpeculativeBlocks := 2
  mamba := rfl
  blockSize_pos := by decide

/-- Ten blocks, and no request. -/
def tenBlocks : Managers Nat :=
  ((Managers.start 10 true [] : Except PyError (List Nat × Managers Nat)).toOption.get (by decide)).2

/-- Two drafts of the second step are rejected, and the third step has none. -/
def rejectedDrafts : State Nat :=
  [.removeSkippedBlocks 0, .noComputedBlocks, .allocateNewBlocks false 2 2 2, .cacheBlocks 0 [] 2, .executeModel 0,
    .removeSkippedBlocks 0, .noComputedBlocks, .allocateNewBlocks false 2 3 3, .cacheBlocks 0 [] 3, .executeModel 2,
    .updateFromOutput 2, .removeSkippedBlocks 0, .noComputedBlocks].foldl
      (State.next twoDrafts 0) { managers := tenBlocks }

theorem rejectedDrafts_reachable : Reachable [twoDrafts] [] twoDrafts 0 (Meets twoDrafts 0) rejectedDrafts := by
  have hstart : Managers.Reachable [twoDrafts] [] tenBlocks :=
    Managers.Reachable.start (by decide) (show Managers.start 10 true [] = .ok ([], tenBlocks) from rfl)
  have h : Reachable [twoDrafts] [] twoDrafts 0 (Meets twoDrafts 0) ({ managers := tenBlocks } : State Nat) :=
    Reachable.start hstart (by decide) (by decide)
  have h := h.next (.removeSkippedBlocks 0) ⟨by decide +kernel, by decide +kernel, by decide +kernel⟩
    trivial (by decide +kernel)
  have h := h.next (.noComputedBlocks) ⟨by decide +kernel, by decide +kernel⟩
    trivial (by decide +kernel)
  have h := h.next (.allocateNewBlocks false 2 2 2) ⟨by decide +kernel, by decide +kernel, by decide +kernel⟩
    ⟨by unfold KeepsBlocks; decide +kernel, Or.inl rfl⟩ (by decide +kernel)
  have h := h.next (.cacheBlocks 0 [] 2) ⟨by decide +kernel, by decide +kernel, by decide +kernel, by decide +kernel⟩
    trivial (by decide +kernel)
  have h := h.next (.executeModel 0) ⟨by decide +kernel, by decide +kernel, by decide +kernel, by decide +kernel⟩
    trivial (by decide +kernel)
  have h := h.next (.removeSkippedBlocks 0) ⟨by decide +kernel, by decide +kernel, by decide +kernel⟩
    trivial (by decide +kernel)
  have h := h.next (.noComputedBlocks) ⟨by decide +kernel, by decide +kernel⟩
    trivial (by decide +kernel)
  have h := h.next (.allocateNewBlocks false 2 3 3) ⟨by decide +kernel, by decide +kernel, by decide +kernel⟩
    ⟨by unfold KeepsBlocks; decide +kernel, Or.inl rfl⟩ (by decide +kernel)
  have h := h.next (.cacheBlocks 0 [] 3) ⟨by decide +kernel, by decide +kernel, by decide +kernel, by decide +kernel⟩
    trivial (by decide +kernel)
  have h := h.next (.executeModel 2) ⟨by decide +kernel, by decide +kernel, by decide +kernel, by decide +kernel⟩
    trivial (by decide +kernel)
  have h := h.next (.updateFromOutput 2) ⟨by decide +kernel, by decide +kernel⟩
    trivial (by decide +kernel)
  have h := h.next (.removeSkippedBlocks 0) ⟨by decide +kernel, by decide +kernel, by decide +kernel⟩
    trivial (by decide +kernel)
  have h := h.next (.noComputedBlocks) ⟨by decide +kernel, by decide +kernel⟩
    trivial (by decide +kernel)
  exact h

theorem managers_share_pool_rejected : PoolRuns.PoolInvariant [] rejectedDrafts.managers.kv :=
  (managers_share_pool (rejectedDrafts_reachable.ok (List.mem_singleton_self _)).managers).1

/-- The three steps of this run meet the condition, and a step of one token would not. -/
theorem align_mode_keeps_table_rejected :
    ((∃ msg, twoDrafts.allocateNewBlocks (rejectedDrafts.managers.mambaState twoDrafts) 0
        (rejectedDrafts.numTokensMainModel 1) = .error (.assertionError msg)) ↔
      ¬ KeepsBlocks twoDrafts 0 rejectedDrafts 1) ∧
    ∃ (p : Nat) (b : Nat), (1 : Int) = p ∧ (rejectedDrafts.blocks twoDrafts 0)[p]? = some b ∧
      b ≠ rejectedDrafts.managers.kv.pool.nullBlock ∧ (rejectedDrafts.blocks twoDrafts 0).count b = 1 :=
  ⟨(align_mode_keeps_table (List.mem_singleton_self _) rejectedDrafts_reachable).1 (by decide +kernel) 1,
    (align_mode_keeps_table (List.mem_singleton_self _) rejectedDrafts_reachable).2.1 1 (by decide +kernel)⟩

theorem Reachable.weaken {κ : Type} [DecidableEq κ] {mambaManagers : List MambaManager} {sinkBlocks : List Nat}
    {m : MambaManager} {requestId : Nat} {condition : State κ → Event κ → Prop} {s : State κ}
    (h : Reachable mambaManagers sinkBlocks m requestId condition s) :
    Reachable mambaManagers sinkBlocks m requestId (fun _ _ => True) s := by
  induction h with
  | start h hnil hnew => exact Reachable.start h hnil hnew
  | step _ henabled _ hstep ih => exact ih.step henabled trivial hstep

/-- The scheduler may ask for fewer blocks than a request has. -/
theorem align_mode_assertion_fails :
    ∃ (m : MambaManager) (s : State Nat), Reachable [m] [] m 0 (fun _ _ => True) s ∧
      Enabled [m] [] m 0 s (.allocateNewBlocks false 2 4 1) ∧ ∃ msg, m.allocateNewBlocks (s.managers.mambaState m) 0
        (s.numTokensMainModel (s.alignedSplit m false 2 4 1)) = .error (.assertionError msg) := by
  refine ⟨twoDrafts, rejectedDrafts, rejectedDrafts_reachable.weaken,
    ⟨by decide +kernel, by decide +kernel, by decide +kernel⟩, ?_⟩
  have hok := rejectedDrafts_reachable.ok (List.mem_singleton_self _)
  apply (hok.asserts_iff (List.mem_singleton_self _) (by decide +kernel) _).mpr
  unfold KeepsBlocks
  decide +kernel

end Yuan.Core.MambaRuns
