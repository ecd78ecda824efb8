import Yuan.Core.MambaTables
import Yuan.Core.PoolRuns

/-!
# Runs of the managers

The managers of all groups share the pool and the tables. Managers of attention layers issue the
operations of `PoolRuns`; a mamba manager in align mode also moves blocks within its rows, so its methods
are operations of their own here. `Reachable` collects the states of all runs. In each of them the
tables are in order, whatever the managers of a model are.
-/

namespace Yuan.Core.PoolRuns

variable {κ ρ : Type} [DecidableEq κ] [DecidableEq ρ]

/-- The row an operation changes. -/
def Op.row? : Op κ ρ → Option ρ
  | .getNewBlocks r _ => some r
  | .touch r _ _ => some r
  | .cacheFullBlocks r _ _ _ => some r
  | .freeBlocks r => some r
  | .removeSkippedBlocks r _ => some r
  | .evictBlocks _ => none
  | .resetPrefixCache => none

/-- All other rows are as before. -/
theorem step_others {s s' : KVState κ ρ} {op : Op κ ρ} {r : ρ} (hr : op.row? ≠ some r)
    (hstep : step s op = .ok s') : s'.blocksOf r = s.blocksOf r ∧ s'.cachedOf r = s.cachedOf r := by
  unfold KVState.blocksOf KVState.cachedOf
  cases op with
  | getNewBlocks r' n =>
    have hne : r ≠ r' := fun h => hr (congrArg some h.symm)
    obtain ⟨⟨blocks, kv⟩, happend, hstep⟩ := bind_eq_ok.mp hstep
    obtain ⟨⟨blocks', pool⟩, -, happend⟩ := bind_eq_ok.mp happend
    cases happend
    cases hstep
    rw [Dict.get?_set_of_ne _ _ hne]
    exact ⟨rfl, rfl⟩
  | touch r' n hits =>
    have hne : r ≠ r' := fun h => hr (congrArg some h.symm)
    obtain ⟨pool, -, hstep⟩ := bind_eq_ok.mp hstep
    cases hstep
    rw [Dict.get?_set_of_ne _ _ hne, Dict.get?_set_of_ne _ _ hne]
    exact ⟨rfl, rfl⟩
  | cacheFullBlocks r' numBlockHashes numFullBlocks hashes =>
    have hne : r ≠ r' := fun h => hr (congrArg some h.symm)
    dsimp only [step, KVState.cacheBlocks] at hstep
    split at hstep
    · cases hstep
      exact ⟨rfl, rfl⟩
    · obtain ⟨pool, -, hstep⟩ := bind_eq_ok.mp hstep
      cases hstep
      rw [Dict.get?_set_of_ne _ _ hne]
      exact ⟨rfl, rfl⟩
  | freeBlocks r' =>
    have hne : r ≠ r' := fun h => hr (congrArg some h.symm)
    obtain ⟨pool, -, hstep⟩ := bind_eq_ok.mp hstep
    cases hstep
    rw [Dict.get?_erase_of_ne _ hne, Dict.get?_erase_of_ne _ hne]
    exact ⟨rfl, rfl⟩
  | removeSkippedBlocks r' n =>
    have hne : r ≠ r' := fun h => hr (congrArg some h.symm)
    obtain ⟨pool, -, hstep⟩ := bind_eq_ok.mp hstep
    cases hstep
    rw [Dict.get?_set_of_ne _ _ hne]
    exact ⟨rfl, rfl⟩
  | evictBlocks ids =>
    obtain ⟨pool, -, hstep⟩ := bind_eq_ok.mp hstep
    cases hstep
    exact ⟨rfl, rfl⟩
  | resetPrefixCache =>
    cases hstep
    exact ⟨rfl, rfl⟩

omit [DecidableEq κ] in
/-- Sink blocks are taken from the free queue, so they are neither the null block nor unknown. -/
theorem popSinks_usable {cfg : BlockPool.Config} {p p' : BlockPool κ} {l sinkBlocks counts : List Nat}
    (h : p.Ok cfg l) (hhash : ∀ b, (p.blocks b).blockHash = none)
    (hsinks : ∀ b ∈ cfg.sinkBlocks, b ≠ 0 ∧ b < cfg.numGpuBlocks)
    (hrun : popSinks p cfg.sinkBlocks counts = .ok (sinkBlocks, p')) :
    ∀ b ∈ sinkBlocks, b ≠ 0 ∧ b < cfg.numGpuBlocks := by
  induction counts generalizing cfg p l with
  | nil =>
    cases hrun
    exact hsinks
  | cons n counts ih =>
    obtain ⟨⟨blocks, p₁⟩, hpop, hrest⟩ := bind_eq_ok.mp hrun
    have hn : n ≤ l.length := by
      obtain ⟨⟨taken, q⟩, hq, -⟩ := bind_eq_ok.mp hpop
      have := FreeKVCacheBlockQueue.le_of_popleftN hq
      rw [h.holds.count] at this
      omega
    obtain ⟨p₁', hpop', hok, hblocks⟩ := h.popSinkBlocks hn hhash
    obtain ⟨rfl, rfl⟩ := Prod.mk.inj (Except.ok.inj (hpop'.symm.trans hpop))
    have hsinks' : ∀ b ∈ l.take n ++ cfg.sinkBlocks, b ≠ 0 ∧ b < cfg.numGpuBlocks := by
      intro b hb
      rcases List.mem_append.mp hb with hb | hb
      · obtain ⟨⟨h0, hlt, -⟩, -⟩ := (h.mem_free b).mp (List.mem_of_mem_take hb)
        exact ⟨h0, hlt⟩
      · exact hsinks b hb
    have husable := ih hok (by rwa [hblocks]) hsinks' hrest
    exact husable

omit [DecidableEq κ] [DecidableEq ρ] in
theorem start_sinks {n : Nat} {enableCaching : Bool} {counts sinkBlocks : List Nat}
    {s : KVState κ ρ} (h : start n enableCaching counts = .ok (sinkBlocks, s)) : ∀ b ∈ sinkBlocks, b ≠ 0 ∧ b < n := by
  obtain ⟨p, hinit, hrest⟩ := bind_eq_ok.mp h
  obtain ⟨u, hpos, -⟩ := bind_eq_ok.mp hinit
  obtain ⟨p₀, hinit', hok, hunused⟩ :=
    BlockPool.ok_init κ (by simpa using pyAssert_eq_ok.mp hpos) enableCaching
  obtain rfl : p = p₀ := Except.ok.inj (hinit.symm.trans hinit')
  obtain ⟨⟨sinks, p'⟩, hpop, hs⟩ := bind_eq_ok.mp hrest
  cases hs
  exact popSinks_usable hok (fun b => (hunused b).2) (fun b hb => by cases hb) hpop

end Yuan.Core.PoolRuns

namespace Yuan.Core

/-! ## The operations of mamba managers -/

/-- What `KVCacheManager` asks of a mamba manager in align mode. -/
inductive MambaOp (κ : Type) where
  | removeSkippedBlocks (requestId : Nat) (numComputedTokens : Int)
  | allocateNewComputedBlocks (requestId : Nat) (newComputedBlocks : List Nat) (numLocalComputedTokens : Int)
  | allocateNewBlocks (requestId : Nat) (numTokensMainModel : Int)
  | cacheBlocks (requestId numBlockHashes : Nat) (blockHashes : List κ) (numTokens : Int)
  | free (requestId : Nat)
  | newStepStarts

namespace MambaManager

variable {κ : Type} [DecidableEq κ] (m : MambaManager) (s : MambaState κ)

/-- One operation. -/
def step : MambaOp κ → Except PyError (MambaState κ)
  | .removeSkippedBlocks requestId numComputedTokens =>
    m.removeSkippedBlocks s requestId numComputedTokens
  | .allocateNewComputedBlocks requestId newComputedBlocks numLocalComputedTokens =>
    m.allocateNewComputedBlocks s requestId newComputedBlocks numLocalComputedTokens
  | .allocateNewBlocks requestId numTokensMainModel => do
    let (_, s) ← m.allocateNewBlocks s requestId numTokensMainModel
    return s
  | .cacheBlocks requestId numBlockHashes blockHashes numTokens =>
    m.cacheBlocks s requestId numBlockHashes blockHashes numTokens
  | .free requestId => m.free s requestId
  | .newStepStarts => .ok (newStepStarts s)

/-- What the callers of an operation see to. -/
def Enabled (sinkBlocks : List Nat) : MambaOp κ → Prop
  | .removeSkippedBlocks _ _ => True
  | .allocateNewComputedBlocks _ newComputedBlocks _ =>
    (s.kv.pool.enableCaching = true ∨ newComputedBlocks = []) ∧
      PoolRuns.ComputedBlocks sinkBlocks s.kv newComputedBlocks
  | .allocateNewBlocks requestId numTokensMainModel =>
    -- the hits of a new request are the blocks of tokens before the last one
    requestId ∉ s.allocatedBlockReqs →
      (s.kv.blocksOf (m.row requestId)).length * m.blockSize ≤ numTokensMainModel
  | .cacheBlocks requestId numBlockHashes blockHashes numTokens =>
    s.kv.pool.enableCaching = true ∧ (numTokens / m.blockSize).toNat ≤ numBlockHashes ∧
      (numTokens / m.blockSize).toNat ≤ blockHashes.length ∧
      -- only tokens with a slot are cached, and the speculative blocks are behind those
      (numTokens / m.blockSize).toNat + m.numSpeculativeBlocks ≤ (s.kv.blocksOf (m.row requestId)).length
  | .free _ => True
  | .newStepStarts => True

/-- The speculative blocks of every request are behind its cached blocks. -/
def Behind : Prop := ∀ requestId,
  s.kv.cachedOf (m.row requestId) +
    (if requestId ∈ s.allocatedBlockReqs then m.numSpeculativeBlocks else 0) ≤
      (s.kv.blocksOf (m.row requestId)).length

variable {m s} {s' : MambaState κ}

section

omit [DecidableEq κ]

theorem Behind.of_allocated (h : m.Behind s) {requestId : Nat} (hr : requestId ∈ s.allocatedBlockReqs) :
    s.kv.cachedOf (m.row requestId) + m.numSpeculativeBlocks ≤ (s.kv.blocksOf (m.row requestId)).length := by
  have := h requestId
  rwa [if_pos hr] at this

/-- The hits of a request are blocks of the pool, each once. -/
theorem Enabled.computed {cfg : BlockPool.Config} {l : List Nat} (h : s.kv.Ok cfg l) {requestId : Nat}
    {hits : List Nat} {numLocalComputedTokens : Int}
    (henabled : m.Enabled s cfg.sinkBlocks (.allocateNewComputedBlocks requestId hits numLocalComputedTokens)) :
    (∀ b ∈ hits, b = 0 ∨ cfg.Usable b) ∧ (hits.filter (· ≠ 0)).Nodup ∧ (cfg.enableCaching = true ∨ hits = []) := by
  obtain ⟨hcaching, hvalid, hnodup⟩ := henabled
  rw [h.pool.enableCaching] at hcaching
  rw [h.pool.nullBlock] at hvalid hnodup
  rw [h.pool.numGpuBlocks] at hvalid
  refine ⟨fun b hb => ?_, hnodup, hcaching⟩
  by_cases h0 : b = 0
  · exact Or.inl h0
  · exact Or.inr ⟨h0, hvalid b hb h0⟩

/-- It is enough to look at the request of an operation. -/
theorem Behind.step (h : m.Behind s) {requestId : Nat}
    (honly : KVState.OnlyRow (m.row requestId) s.kv s'.kv)
    (hreqs : ∀ r, r ≠ requestId → (r ∈ s'.allocatedBlockReqs ↔ r ∈ s.allocatedBlockReqs))
    (hrow : s'.kv.cachedOf (m.row requestId) +
      (if requestId ∈ s'.allocatedBlockReqs then m.numSpeculativeBlocks else 0) ≤
        (s'.kv.blocksOf (m.row requestId)).length) : m.Behind s' := by
  intro r
  by_cases hr : r = requestId
  · subst hr
    exact hrow
  · have hne : m.row r ≠ m.row requestId := fun heq => hr (Prod.mk.inj heq).2
    rw [honly.numCachedBlock _ hne, honly.blocksOf hne]
    have := h r
    simp only [hreqs r hr]
    exact this

end

/-- The rows of the other groups are as before. -/
def OthersSame (m : MambaManager) (s s' : KVState κ Row) : Prop :=
  ∀ row : Row, row.1 ≠ m.kvCacheGroupId → s'.blocksOf row = s.blocksOf row ∧ s'.cachedOf row = s.cachedOf row

omit [DecidableEq κ] in
theorem othersSame_of_onlyRow {requestId : Nat} {kv kv' : KVState κ Row}
    (h : KVState.OnlyRow (m.row requestId) kv kv') : m.OthersSame kv kv' := by
  intro row hrow
  have hne : row ≠ m.row requestId := fun heq => hrow (by rw [heq]; rfl)
  exact ⟨h.blocksOf hne, h.numCachedBlock row hne⟩

/-- Every operation keeps the tables in order, and changes rows of its own group only. -/
theorem step_ok {cfg : BlockPool.Config} {l : List Nat} (h : s.kv.Ok cfg l) (hbehind : m.Behind s)
    {op : MambaOp κ} (henabled : m.Enabled s cfg.sinkBlocks op) (hstep : m.step s op = .ok s') :
    (∃ l', s'.kv.Ok cfg l') ∧ m.Behind s' ∧ m.OthersSame s.kv s'.kv := by
  cases op with
  | removeSkippedBlocks r n =>
    obtain ⟨kv, rfl, hok, honly, hcached, hlen⟩ := removeSkippedBlocks_spec h hstep
    refine ⟨hok, hbehind.step honly (fun _ _ => Iff.rfl) ?_, othersSame_of_onlyRow honly⟩
    have := hbehind r
    simp only [KVState.cachedOf, hcached, hlen] at this ⊢
    exact this
  | allocateNewComputedBlocks r hits n =>
    obtain ⟨husable, hnodup, hcaching⟩ := Enabled.computed h henabled
    obtain ⟨kv, rfl, hok, honly, hadded⟩ :=
      allocateNewComputedBlocks_spec h husable hnodup hcaching hstep
    refine ⟨hok, hbehind.step honly (fun _ _ => Iff.rfl) ?_, othersSame_of_onlyRow honly⟩
    have hr := hbehind r
    rcases hadded with rfl | ⟨hnil, hcached⟩
    · exact hr
    · -- an allocated request without blocks has no speculative blocks
      rw [hnil, List.length_nil] at hr
      dsimp only at hr ⊢
      omega
  | allocateNewBlocks r n =>
    obtain ⟨⟨newBlocks, st⟩, hrun, hstep⟩ := bind_eq_ok.mp hstep
    obtain rfl := Except.ok.inj hstep
    have hhits : r ∉ s.allocatedBlockReqs →
        ((s.kv.blocksOf (m.row r)).length : Int) ≤ cdiv n m.blockSize :=
      fun hr => le_cdiv m.blockSize_pos' (henabled hr)
    obtain ⟨hok, honly, hcached, hlen, hgrow, hreqs⟩ :=
      allocateNewBlocks_spec h hbehind.of_allocated hhits hrun
    refine ⟨hok, ?_, othersSame_of_onlyRow honly⟩
    rcases hreqs with rfl | hreqs
    · exact hbehind
    · apply hbehind.step honly
      · intro r' hr'
        rw [hreqs]
        simp [hr']
      · have hr := hbehind r
        have hk := fun hr : r ∈ s.allocatedBlockReqs => hbehind.of_allocated hr
        have hcached : st.kv.cachedOf (m.row r) = s.kv.cachedOf (m.row r) := by
          rw [KVState.cachedOf, hcached, KVState.cachedOf]
        rw [hcached, hreqs, if_pos (by simp)]
        unfold numRequiredBlocks at hlen
        by_cases hallocated : r ∈ s.allocatedBlockReqs
        · have := hk hallocated
          omega
        · have := hhits hallocated
          omega
  | cacheBlocks r numBlockHashes hashes n =>
    obtain ⟨hcaching, hnum, hlen, hslots⟩ := henabled
    rw [h.pool.enableCaching] at hcaching
    obtain ⟨kv, cachedThisStep, rfl, hok, honly, htables, hcached⟩ :=
      cacheBlocks_spec h hcaching hnum hlen hstep
    refine ⟨⟨l, hok⟩, hbehind.step honly (fun _ _ => Iff.rfl) ?_, othersSame_of_onlyRow honly⟩
    have hr := hbehind r
    have hsame : kv.blocksOf (m.row r) = s.kv.blocksOf (m.row r) := by
      rw [KVState.blocksOf, htables, KVState.blocksOf]
    rw [hcached, hsame]
    split
    · next hallocated =>
      rw [if_pos hallocated] at hr
      omega
    · next hnew =>
      omega
  | free r =>
    obtain ⟨hok, honly, hcached, hreqs⟩ := free_spec h hstep
    refine ⟨hok, hbehind.step honly (fun r' hr' => by rw [hreqs]; simp [hr']) ?_,
      othersSame_of_onlyRow honly⟩
    rw [hcached, hreqs, if_neg (by simp)]
    exact Nat.zero_le _
  | newStepStarts =>
    cases hstep
    exact ⟨⟨l, h⟩, hbehind, fun _ _ => ⟨rfl, rfl⟩⟩

end MambaManager

/-! ## All managers -/

/-- The managers of a model: the pool and the tables they share, and what the mamba manager of each group
keeps for itself. -/
structure Managers (κ : Type) where
  kv : KVState κ Row
  mamba : Nat → MambaState κ

namespace Managers

variable {κ : Type} [DecidableEq κ]

/-- An operation of one of the managers. -/
inductive Op (κ : Type) where
  | pool (op : PoolRuns.Op κ Row)
  | mamba (m : MambaManager) (op : MambaOp κ)

/-- What a mamba manager sees. -/
def mambaState (s : Managers κ) (m : MambaManager) : MambaState κ :=
  { s.mamba m.kvCacheGroupId with kv := s.kv }

/-- One operation. -/
def step (s : Managers κ) : Op κ → Except PyError (Managers κ)
  | .pool op => do
    let kv ← PoolRuns.step s.kv op
    return { s with kv }
  | .mamba m op => do
    let st ← m.step (s.mambaState m) op
    return { kv := st.kv, mamba := Function.update s.mamba m.kvCacheGroupId st }

/-- What the callers of an operation see to: the rows of a mamba group are left to its manager. -/
def Enabled (mambaManagers : List MambaManager) (sinkBlocks : List Nat) (s : Managers κ) : Op κ → Prop
  | .pool op => PoolRuns.Enabled sinkBlocks s.kv op ∧
      ∀ m ∈ mambaManagers, ∀ requestId, op.row? ≠ some (m.row requestId)
  | .mamba m op => m ∈ mambaManagers ∧ m.Enabled (s.mambaState m) sinkBlocks op

/-- Start-up: the sink managers have taken their blocks, and there are no requests. -/
def start (numGpuBlocks : Nat) (enableCaching : Bool) (numSinkBlocks : List Nat) :
    Except PyError (List Nat × Managers κ) := do
  let (sinkBlocks, kv) ← PoolRuns.start numGpuBlocks enableCaching numSinkBlocks
  return (sinkBlocks, ⟨kv, fun _ => { kv }⟩)

/-- The states of all runs, with the sink blocks of the run. -/
inductive Reachable (mambaManagers : List MambaManager) (sinkBlocks : List Nat) : Managers κ → Prop where
  | start {numGpuBlocks : Nat} {enableCaching : Bool} {numSinkBlocks : List Nat} {s : Managers κ}
      -- a group has one manager
      (hgroups : (mambaManagers.map (·.kvCacheGroupId)).Nodup)
      (h : start numGpuBlocks enableCaching numSinkBlocks = .ok (sinkBlocks, s)) :
      Reachable mambaManagers sinkBlocks s
  | step {s s' : Managers κ} {op : Op κ} (h : Reachable mambaManagers sinkBlocks s)
      (henabled : Enabled mambaManagers sinkBlocks s op) (hstep : s.step op = .ok s') :
      Reachable mambaManagers sinkBlocks s'

/-- The tables are in order, those of mamba groups too. -/
structure Ok (mambaManagers : List MambaManager) (sinkBlocks : List Nat) (s : Managers κ) : Prop where
  kv : ∃ cfg l, cfg.sinkBlocks = sinkBlocks ∧ s.kv.Ok cfg l ∧ ∀ b ∈ sinkBlocks, b ≠ 0 ∧ b < cfg.numGpuBlocks
  behind : ∀ m ∈ mambaManagers, m.Behind (s.mambaState m)

variable {mambaManagers : List MambaManager} {sinkBlocks : List Nat} {s s' : Managers κ}

omit [DecidableEq κ] in
/-- The speculative blocks of a manager stay where they are, if its rows and its requests do. -/
theorem behind_congr {m : MambaManager} {st st' : MambaState κ} (h : m.Behind st)
    (hrows : ∀ requestId, st'.kv.blocksOf (m.row requestId) = st.kv.blocksOf (m.row requestId) ∧
      st'.kv.cachedOf (m.row requestId) = st.kv.cachedOf (m.row requestId))
    (hreqs : st'.allocatedBlockReqs = st.allocatedBlockReqs) : m.Behind st' := by
  intro requestId
  obtain ⟨hblocks, hcached⟩ := hrows requestId
  rw [hblocks, hcached, hreqs]
  exact h requestId

theorem Reachable.nodup_groups (h : Reachable mambaManagers sinkBlocks s) :
    (mambaManagers.map (·.kvCacheGroupId)).Nodup := by
  induction h with
  | start hgroups _ => exact hgroups
  | step _ _ _ ih => exact ih

theorem Reachable.ok (h : Reachable mambaManagers sinkBlocks s) : s.Ok mambaManagers sinkBlocks := by
  have hgroups := h.nodup_groups
  induction h with
  | @start n enableCaching counts s _ h =>
    obtain ⟨⟨sinks, kv⟩, hstart, hs⟩ := bind_eq_ok.mp h
    obtain ⟨rfl, rfl⟩ := ok_pair hs
    obtain ⟨l, hok⟩ := PoolRuns.ok_start hstart
    refine ⟨⟨⟨n, enableCaching, sinks⟩, l, rfl, hok, PoolRuns.start_sinks hstart⟩, fun m _ r => ?_⟩
    obtain ⟨p, -, hrest⟩ := bind_eq_ok.mp hstart
    obtain ⟨⟨sinks', p'⟩, -, hkv⟩ := bind_eq_ok.mp hrest
    cases hkv
    exact Nat.zero_le _
  | @step s s' op _ henabled hstep ih =>
    obtain ⟨⟨cfg, l, hsinks, hok, husable⟩, hbehind⟩ := ih
    subst hsinks
    cases op with
    | pool op =>
      obtain ⟨kv, hkv, hstep⟩ := bind_eq_ok.mp hstep
      cases hstep
      obtain ⟨kv', hkv', l', hok'⟩ := PoolRuns.step_ok hok henabled.1
      obtain rfl : kv' = kv := Except.ok.inj (hkv'.symm.trans hkv)
      refine ⟨⟨cfg, l', rfl, hok', husable⟩, fun m hm => behind_congr (hbehind m hm) (fun r => ?_) rfl⟩
      exact PoolRuns.step_others (henabled.2 m hm r) hkv
    | mamba m op =>
      obtain ⟨st, hst, hstep⟩ := bind_eq_ok.mp hstep
      cases hstep
      obtain ⟨hm, henabled⟩ := henabled
      obtain ⟨⟨l', hok'⟩, hbehind', hothers⟩ := MambaManager.step_ok hok (hbehind m hm) henabled hst
      refine ⟨⟨cfg, l', rfl, hok', husable⟩, fun m' hm' => ?_⟩
      by_cases hsame : m'.kvCacheGroupId = m.kvCacheGroupId
      · obtain rfl : m' = m := List.inj_on_of_nodup_map hgroups hm' hm hsame
        refine behind_congr hbehind' ?_ ?_
        · exact fun r => ⟨rfl, rfl⟩
        show (Function.update s.mamba m'.kvCacheGroupId st m'.kvCacheGroupId).allocatedBlockReqs = _
        rw [Function.update_self]
      · refine behind_congr (hbehind m' hm') ?_ ?_
        · exact fun r => hothers _ hsame
        show (Function.update s.mamba m.kvCacheGroupId st m'.kvCacheGroupId).allocatedBlockReqs = _
        rw [Function.update_of_ne hsame]
        rfl

end Managers
end Yuan.Core
