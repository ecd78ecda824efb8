import Yuan.Worker.Condense

/-!
# Runs of the persistent batch

In every step requests are removed, then added, then the batch is condensed, then slots are exchanged,
then the metadata is refreshed; requests in the batch may be updated at any time. Next to the batch a
run keeps what was written for each request. As long as no operation meets one of the columns it
forgets, every slot holds what was written for its request.
-/

namespace Yuan.Worker

open BatchUpdateBuilder (Wellformed Lowest)
open InputBatch

variable {E G : Type}

/-- Where a run is in its step. -/
inductive Phase where
  | idle
  | removing
  | adding
  | swapping
  deriving DecidableEq, Repr

inductive BatchOp (E G : Type) where
  | remove (reqId : String)
  | add (request : CachedRequestState E G)
  | condense
  | swap (i1 i2 : Nat)
  | refresh
  | update (reqId : String) (u : RequestUpdate)

structure BatchRun (E G : Type) where
  batch : InputBatch E G
  phase : Phase := .idle
  /-- The requests as they were added. -/
  requests : String → Option (CachedRequestState E G) := fun _ => none
  /-- What was written for the requests. -/
  written : String → Option (Written E G) := fun _ => none

namespace BatchRun

def step (run : BatchRun E G) : BatchOp E G → Except PyError (BatchRun E G)
  | .remove reqId => do
    let (_, batch) ← run.batch.removeRequest reqId
    return { run with batch, phase := .removing }
  | .add request => do
    let (_, batch) ← run.batch.addRequest request
    return { run with
      batch
      phase := .adding
      requests := Function.update run.requests request.reqId (some request)
      written := Function.update run.written request.reqId
        (some (request.written batch.vocabSize batch.blockTable.blocksPerKVBlock)) }
  | .condense => do
    let batch ← run.batch.condense
    return { run with batch, phase := .swapping }
  | .swap i1 i2 => do
    let batch ← run.batch.swapStates i1 i2
    return { run with batch }
  | .refresh => return { run with batch := run.batch.refreshMetadata.2, phase := .idle }
  | .update reqId u => do
    let batch ← run.batch.updateRequest reqId u
    return { run with
      batch
      written := Function.update run.written reqId
        ((run.written reqId).map fun w => w.update batch.blockTable.blocksPerKVBlock u) }

/-- The order of the operations in a step. A request that is added is not in the batch, and is of the
kind that the model is for. -/
def Allowed (run : BatchRun E G) : BatchOp E G → Prop
  | .remove _ => run.phase = .idle ∨ run.phase = .removing
  | .add request => run.phase ≠ .swapping ∧ run.batch.reqIdToIndex.get? request.reqId = none ∧
      request.samplingParams.isSome = !run.batch.isPoolingModel
  | .condense => run.phase ≠ .swapping
  | .swap _ _ => run.phase = .swapping
  | .refresh => run.phase = .swapping
  | .update _ _ => True

/-- The states of runs from an empty batch whose operations all meet a condition. -/
inductive Reachable (Meets : InputBatch E G → BatchOp E G → Prop) (start : InputBatch E G) :
    BatchRun E G → Prop where
  | start : Reachable Meets start { batch := start }
  | step {run run' : BatchRun E G} (h : Reachable Meets start run) (op : BatchOp E G)
    (hallowed : run.Allowed op) (hmeets : Meets run.batch op) (hstep : run.step op = .ok run') :
    Reachable Meets start run'

end BatchRun

namespace InputBatch

/-- A batch as it is made: the sizes are given, the rest is empty. -/
def new (isPoolingModel : Bool) (maxNumReqs vocabSize : Nat) (blockTable : MultiGroupBlockTable) :
    InputBatch E G :=
  { isPoolingModel, maxNumReqs, vocabSize, blockTable }

/-- The operation meets none of the columns it forgets. -/
def Clean (b : InputBatch E G) : BatchOp E G → Prop
  | .add request => Blank (b.slot b.nextIndex) request
  | .condense => ∀ m ∈ b.moves, MovesCleanly b.isPoolingModel (b.slot m.1) (b.slot m.2)
  | .swap i1 i2 => SwapsCleanly b.isPoolingModel (b.slot i1) (b.slot i2)
  | _ => True

/-- Slots and index agree, every slot holds what was written for its request, and free slots are
vacant. -/
structure Kept (b : InputBatch E G) (written : String → Option (Written E G)) : Prop where
  shape : Shape b
  indexed : Indexed b
  held : ∀ i id, b.occupant i = some id →
    ∃ w, written id = some w ∧ w.Fits b.isPoolingModel ∧ w.HeldBy (b.slot i)
  vacant : b.isPoolingModel = false → ∀ i, b.occupant i = none → Vacant (b.slot i)

variable {b b' : InputBatch E G} {written : String → Option (Written E G)} {i : Nat} {reqId : String}
  {request : CachedRequestState E G} {j : Nat}

/-! ## The index after each operation -/

theorem Indexed.unique (h : Indexed b) {id : String} (hi : b.occupant i = some id) (hj : b.occupant j = some id) :
    i = j :=
  Option.some.inj (((h id i).mpr hi).symm.trans ((h id j).mpr hj))

theorem RemovedAt.occupant (h : RemovedAt b b' reqId i) (hi : i < b.reqIds.length) (k : Nat) :
    b'.occupant k = if k = i then none else b.occupant k := by
  unfold InputBatch.occupant
  rw [h.reqIds, getD_set hi]
  split
  · next heq => rw [heq, Function.update_self]
  · next hne => rw [Function.update_of_ne hne]

theorem Indexed.removedAt (h : Indexed b) (hr : RemovedAt b b' reqId i) : Indexed b' := by
  have hi := (h reqId i).mp hr.index
  intro id k
  rw [hr.reqIdToIndex, hr.occupant (occupant_lt hi), Dict.get?_erase]
  split
  · next heq =>
      constructor
      · intro hk
        cases hk
      · intro hk
        split at hk
        · cases hk
        · next hne => exact absurd (h.unique (heq ▸ hk) hi) hne
  · next hne =>
      rw [h id k]
      split
      · next heq =>
          constructor
          · intro hk
            rw [heq, hi] at hk
            exact absurd (Option.some.inj hk).symm hne
          · intro hk
            cases hk
      · exact Iff.rfl

theorem AddedAt.occupant (h : AddedAt b b' request i) (hi : i ≤ b.reqIds.length) (k : Nat) :
    b'.occupant k = if k = i then some request.reqId else b.occupant k := by
  unfold InputBatch.occupant
  rw [h.reqIds]
  unfold addEntry
  split
  · next heq =>
      rw [getD_append_singleton, ← heq]
      split
      · next hk => rw [hk, Function.update_self]
      · next hk => rw [Function.update_of_ne hk]
  · next hne =>
      rw [getD_set (lt_of_le_of_ne hi hne)]
      split
      · next hk => rw [hk, Function.update_self]
      · next hk => rw [Function.update_of_ne hk]

theorem Indexed.addedAt (h : Indexed b) (ha : AddedAt b b' request i) (hi : i ≤ b.reqIds.length)
    (hfree : b.occupant i = none) (hnew : b.reqIdToIndex.get? request.reqId = none) : Indexed b' := by
  have hnot : ∀ k, b.occupant k ≠ some request.reqId := by
    intro k hk
    rw [(h _ k).mpr hk] at hnew
    cases hnew
  intro id k
  rw [ha.reqIdToIndex, ha.occupant hi, Dict.get?_set]
  split
  · next heq =>
      subst heq
      constructor
      · intro hk
        cases hk
        exact if_pos rfl
      · intro hk
        split at hk
        · next heq => rw [heq]
        · exact absurd hk (hnot k)
  · next hne =>
      rw [h id k]
      split
      · next heq =>
          constructor
          · intro hk
            rw [heq, hfree] at hk
            cases hk
          · intro hk
            exact absurd (Option.some.inj hk).symm hne
      · exact Iff.rfl

theorem Indexed.swapped (h : Indexed b) (hs : Swapped b b' i j) : Indexed b' := by
  obtain ⟨id1, id2, hid1, hid2, hdict⟩ := hs.occupied
  have hdict' := hdict i j ((h _ _).mpr hid1) ((h _ _).mpr hid2)
  have hother : ∀ k id, b.occupant (Equiv.swap i j k) = some id ↔
      b.reqIdToIndex.get? id = some (Equiv.swap i j k) := fun k id => (h id _).symm
  intro id k
  rw [hs.occupant, hother, hdict', Dict.get?_set, Dict.get?_set]
  split
  · next heq =>
      rw [heq, (h _ _).mpr hid2]
      constructor
      · intro hk
        cases hk
        rw [Equiv.swap_apply_left]
      · intro hk
        have hback := Equiv.swap_apply_self i j k
        rw [← Option.some.inj hk, Equiv.swap_apply_right] at hback
        rw [hback]
  · next hne2 =>
      split
      · next heq =>
          rw [heq, (h _ _).mpr hid1]
          constructor
          · intro hk
            cases hk
            rw [Equiv.swap_apply_right]
          · intro hk
            have hback := Equiv.swap_apply_self i j k
            rw [← Option.some.inj hk, Equiv.swap_apply_left] at hback
            rw [hback]
      · next hne1 =>
          have hki : ∀ k, b.reqIdToIndex.get? id = some k → k ≠ i ∧ k ≠ j := by
            intro k hk
            have hocc := (h _ _).mp hk
            refine ⟨?_, ?_⟩
            · rintro rfl
              rw [hid1] at hocc
              exact hne1 (Option.some.inj hocc).symm
            · rintro rfl
              rw [hid2] at hocc
              exact hne2 (Option.some.inj hocc).symm
          constructor
          · intro hk
            obtain ⟨hi, hj⟩ := hki k hk
            rw [Equiv.swap_apply_of_ne_of_ne hi hj]
            exact hk
          · intro hk
            obtain ⟨hi, hj⟩ := hki _ hk
            have hself := Equiv.swap_apply_of_ne_of_ne hi hj
            rw [Equiv.swap_apply_self] at hself
            rwa [← hself] at hk

/-! ## What each operation keeps -/

theorem Kept.removedAt (h : Kept b written) (hr : RemovedAt b b' reqId i) : Kept b' written := by
  have hi := occupant_lt ((h.indexed reqId i).mp hr.index)
  refine ⟨hr.shape, h.indexed.removedAt hr, ?_, ?_⟩
  · intro k id hk
    rw [hr.occupant hi] at hk
    split at hk
    · cases hk
    · next hne =>
        rw [hr.config.isPoolingModel, hr.slot_ne k hne]
        exact h.held k id hk
  · intro hpooling k hk
    rw [hr.config.isPoolingModel] at hpooling
    rw [hr.occupant hi] at hk
    rcases eq_or_ne k i with rfl | hne
    · exact hr.vacant hpooling
    · rw [if_neg hne] at hk
      rw [hr.slot_ne k hne]
      exact h.vacant hpooling k hk

/-- What `add_request` writes is right for the kind of the model. -/
theorem AddedAt.fits (ha : AddedAt b b' request i) (hkind : request.samplingParams.isSome = !b.isPoolingModel) :
    (request.written b.vocabSize b.blockTable.blocksPerKVBlock).Fits b.isPoolingModel := by
  unfold Written.Fits CachedRequestState.written
  cases hsampling : request.samplingParams with
  | none =>
    rw [hsampling] at hkind
    have hpooling : b.isPoolingModel = true := by
      cases hb : b.isPoolingModel with
      | true => rfl
      | false => rw [hb] at hkind; cases hkind
    rw [if_pos hpooling]
    refine ⟨rfl, ?_⟩
    rcases ha.params with hne | hne
    · exact absurd hsampling hne
    · simpa using hne
  | some params =>
    rw [hsampling] at hkind
    have hpooling : ¬ b.isPoolingModel = true := by
      intro hb
      rw [hb] at hkind
      cases hkind
    rw [if_neg hpooling]
    exact ⟨rfl, by simp⟩

theorem Kept.addedAt (h : Kept b written) (ha : AddedAt b b' request i) (hi : i ≤ b.reqIds.length)
    (hfree : b.occupant i = none) (hnew : b.reqIdToIndex.get? request.reqId = none)
    (hkind : request.samplingParams.isSome = !b.isPoolingModel) (hblank : Blank (b.slot i) request) :
    Kept b' (Function.update written request.reqId
      (some (request.written b'.vocabSize b'.blockTable.blocksPerKVBlock))) := by
  rw [ha.config.vocabSize, ha.config.blocksPerKVBlock]
  refine ⟨ha.shape, h.indexed.addedAt ha hi hfree hnew, ?_, ?_⟩
  · intro k id hk
    rw [ha.config.isPoolingModel]
    rw [ha.occupant hi] at hk
    split at hk
    · next heq =>
        cases hk
        subst heq
        refine ⟨_, Function.update_self .., ha.fits hkind, ?_⟩
        apply ha.heldBy hblank
        intro hsampling
        apply h.vacant _ _ hfree
        rw [Option.isSome_iff_ne_none.mpr hsampling] at hkind
        cases hb : b.isPoolingModel with
        | true => rw [hb] at hkind; cases hkind
        | false => rfl
    · next hne =>
        have hid : id ≠ request.reqId := by
          rintro rfl
          rw [(h.indexed _ k).mpr hk] at hnew
          cases hnew
        rw [Function.update_of_ne hid, ha.slot_ne k hne]
        exact h.held k id hk
  · intro hpooling k hk
    rw [ha.config.isPoolingModel] at hpooling
    rw [ha.occupant hi] at hk
    split at hk
    · cases hk
    · next hne =>
        rw [ha.slot_ne k hne]
        exact h.vacant hpooling k hk

theorem Kept.movedDown {u : BatchUpdateBuilder} {last empty : Nat} (h : Kept b written)
    (hoccupied : b.occupant last = some reqId) (hfree : b.occupant empty = none) (hempty : empty < b.reqIds.length)
    (hmoved : MovedDown { b with batchUpdateBuilder := u } b' reqId last empty)
    (hclean : MovesCleanly b.isPoolingModel (b.slot last) (b.slot empty)) : Kept b' written := by
  have hoccupant := hmoved.occupant (occupant_lt hoccupied) hempty
  have hsame : b'.isPoolingModel = b.isPoolingModel := hmoved.config.isPoolingModel
  refine ⟨hmoved.shape, h.indexed.movedDown hoccupied hfree hempty hmoved, ?_, ?_⟩
  · intro k id hk
    rw [hsame]
    rw [hoccupant] at hk
    split at hk
    · cases hk
    · next hlast =>
        split at hk
        · next heq =>
            subst heq
            cases hk
            obtain ⟨w, hw, hfits, hheld⟩ := h.held last reqId hoccupied
            exact ⟨w, hw, hfits, hmoved.heldBy w hheld hfits hclean fun hp => h.vacant hp _ hfree⟩
        · next hne =>
            rw [hmoved.slot_ne k hlast hne]
            exact h.held k id hk
  · intro hpooling k hk
    rw [hsame] at hpooling
    rw [hoccupant] at hk
    split at hk
    · next heq =>
        rw [heq]
        exact hmoved.vacant hpooling
    · next hlast =>
        split at hk
        · cases hk
        · next hne =>
            rw [hmoved.slot_ne k hlast hne]
            exact h.vacant hpooling k hk

/-- Clean moves, one after the other. A move touches no slot of a later one. -/
theorem Kept.moves {moves : List (Nat × Nat)} (hmoves : Moves b moves b') (h : Kept b written)
    (hlater : moves.Pairwise fun m m' => m'.1 ≠ m.1 ∧ m'.1 ≠ m.2 ∧ m'.2 ≠ m.1 ∧ m'.2 ≠ m.2)
    (hclean : ∀ m ∈ moves, MovesCleanly b.isPoolingModel (b.slot m.1) (b.slot m.2)) : Kept b' written := by
  induction hmoves with
  | nil b => exact h
  | @cons b b' b'' u reqId last empty moves hlowest hoccupied hfree hlt hnot hmoved hrest ih =>
    have hempty : empty < b.reqIds.length := hlt.trans (occupant_lt hoccupied)
    obtain ⟨hne, hlater⟩ := List.pairwise_cons.mp hlater
    apply ih (h.movedDown hoccupied hfree hempty hmoved (hclean _ List.mem_cons_self)) hlater
    intro m hm
    obtain ⟨h1, h2, h3, h4⟩ := hne m hm
    rw [hmoved.slot_ne m.1 h1 h2, hmoved.slot_ne m.2 h3 h4]
    have hsame : b'.isPoolingModel = b.isPoolingModel := hmoved.config.isPoolingModel
    rw [hsame]
    exact hclean m (List.mem_cons_of_mem _ hm)

theorem condenseMoves_pairwise {turns last : Nat} {u : BatchUpdateBuilder} (hu : Wellformed u) :
    (condenseMoves turns last u).Pairwise fun m m' =>
      m'.1 ≠ m.1 ∧ m'.1 ≠ m.2 ∧ m'.2 ≠ m.1 ∧ m'.2 ≠ m.2 := by
  induction turns generalizing last u with
  | zero => exact List.Pairwise.nil
  | succ turns ih =>
    unfold condenseMoves
    split
    · exact List.Pairwise.nil
    · next hne =>
        obtain ⟨index, u', hpop, hlowest⟩ := hu.popRemoved hne
        rw [hpop]
        show List.Pairwise _ (if index ≥ largestNonEmpty u.removed last then []
          else (largestNonEmpty u.removed last, index) ::
            condenseMoves turns (largestNonEmpty u.removed last - 1) u')
        split
        · exact List.Pairwise.nil
        · next hlt =>
            apply List.Pairwise.cons _ (ih hlowest.wellformed)
            rintro ⟨l, e⟩ hmem
            obtain ⟨he, hel, hle⟩ := mem_condenseMoves hlowest.wellformed hmem
            obtain ⟨he', hne'⟩ := (hlowest.rest e).mp he
            have hindex := hlowest.le e he'
            refine ⟨?_, ?_, ?_, hne'⟩ <;> simp only [ne_eq] <;> omega

theorem Kept.readRemoved (h : Kept b written) : Kept b.readRemoved written :=
  ⟨⟨h.shape.1, h.shape.2, h.shape.3⟩, h.indexed, h.held, h.vacant⟩

theorem Kept.trimmed (h : Kept b written) (ht : Trimmed b b') : Kept b' written := by
  refine ⟨ht.shape, ?_, ?_, ?_⟩
  · intro id i
    rw [ht.reqIdToIndex, ht.occupant]
    exact h.indexed id i
  · intro i id hi
    rw [ht.config.isPoolingModel, ht.slot i (occupant_lt hi)]
    rw [ht.occupant] at hi
    exact h.held i id hi
  · intro hpooling i hi
    rw [ht.config.isPoolingModel] at hpooling
    rw [ht.occupant] at hi
    have hvacant := h.vacant hpooling i hi
    refine ⟨?_, ?_⟩
    · rw [ht.sampling]
      exact hvacant.generator
    · rw [ht.sampling]
      exact hvacant.badWordsTokenIds

theorem Kept.condensed (h : Kept b written) (hwell : Wellformed b.batchUpdateBuilder) (hc : Condensed b b')
    (hclean : ∀ m ∈ b.moves, MovesCleanly b.isPoolingModel (b.slot m.1) (b.slot m.2)) : Kept b' written := by
  obtain ⟨b0, hmoves, htrim⟩ := hc.moves
  have hpairwise : b.moves.Pairwise _ := condenseMoves_pairwise hwell.ensureRemovedSorted
  exact (Kept.moves hmoves h.readRemoved hpairwise hclean).trimmed htrim

theorem Kept.swapped (h : Kept b written) (hs : Swapped b b' i j)
    (hclean : SwapsCleanly b.isPoolingModel (b.slot i) (b.slot j)) : Kept b' written := by
  refine ⟨hs.shape, h.indexed.swapped hs, ?_, ?_⟩
  · intro k id hk
    rw [hs.occupant] at hk
    obtain ⟨w, hw, hfits, hheld⟩ := h.held _ id hk
    rw [hs.config.isPoolingModel]
    exact ⟨w, hw, hfits, hs.heldBy w k hheld hfits hclean⟩
  · intro hpooling k hk
    rw [hs.config.isPoolingModel] at hpooling
    rw [hs.occupant] at hk
    obtain ⟨id1, id2, hid1, hid2, -⟩ := hs.occupied
    have hki : k ≠ i := by
      rintro rfl
      rw [Equiv.swap_apply_left, hid2] at hk
      cases hk
    have hkj : k ≠ j := by
      rintro rfl
      rw [Equiv.swap_apply_right, hid1] at hk
      cases hk
    rw [Equiv.swap_apply_of_ne_of_ne hki hkj] at hk
    rw [hs.slot_ne k hki hkj]
    exact h.vacant hpooling k hk

theorem SameOccupants.occupant (h : SameOccupants b b') (k : Nat) : b'.occupant k = b.occupant k := by
  unfold InputBatch.occupant
  rw [h.reqIds]

theorem Indexed.same (h : Indexed b) (hsame : SameOccupants b b') : Indexed b' := by
  intro id k
  rw [hsame.reqIdToIndex, hsame.occupant]
  exact h id k

theorem updateRequest_eq_ok {u : RequestUpdate} (hok : b.updateRequest reqId u = .ok b') (hshape : Shape b)
    (hindexed : Indexed b) : SameOccupants b b' ∧ Shape b' := by
  unfold updateRequest at hok
  split at hok
  · cases hok
  · next i hi =>
      obtain ⟨hsame, hshape', -⟩ := updateSlot_eq_ok hok hshape (hindexed.lt hi)
      exact ⟨hsame, hshape'⟩

theorem Kept.updated {u : RequestUpdate} (h : Kept b written) (hok : b.updateRequest reqId u = .ok b') :
    Kept b' (Function.update written reqId
      ((written reqId).map fun w => w.update b'.blockTable.blocksPerKVBlock u)) := by
  unfold updateRequest at hok
  split at hok
  · cases hok
  · next i hi =>
      have hocc := (h.indexed reqId i).mp hi
      have hlt := occupant_lt hocc
      obtain ⟨hsame, hshape, hne⟩ := updateSlot_eq_ok hok h.shape hlt
      refine ⟨hshape, h.indexed.same hsame, ?_, ?_⟩
      · intro k id hk
        rw [hsame.occupant] at hk
        rw [hsame.config.isPoolingModel, hsame.config.blocksPerKVBlock]
        obtain ⟨w, hw, hfits, hheld⟩ := h.held k id hk
        rcases eq_or_ne id reqId with rfl | hid
        · rw [Function.update_self, hw]
          have hki := h.indexed.unique hk hocc
          subst hki
          exact ⟨_, rfl, hfits.update _ u, updateSlot_heldBy hok h.shape hlt hheld⟩
        · rw [Function.update_of_ne hid]
          have hki : k ≠ i := by
            rintro rfl
            rw [hocc] at hk
            exact hid (Option.some.inj hk).symm
          rw [hne k hki]
          exact ⟨w, hw, hfits, hheld⟩
      · intro hpooling k hk
        rw [hsame.config.isPoolingModel] at hpooling
        rw [hsame.occupant] at hk
        have hki : k ≠ i := by
          rintro rfl
          rw [hocc] at hk
          cases hk
        rw [hne k hki]
        exact h.vacant hpooling k hk

/-- The index and the lists after the moves and the cut. -/
theorem Condensed.ordered (hc : Condensed b b') (hshape : Shape b) (hindexed : Indexed b) : Shape b' ∧ Indexed b' := by
  obtain ⟨b0, hmoves, htrim⟩ := hc.moves
  have hshape1 : Shape b.readRemoved := ⟨hshape.1, hshape.2, hshape.3⟩
  have hkept := hmoves.kept hshape1 hindexed
  refine ⟨htrim.shape, ?_⟩
  intro id i
  rw [htrim.reqIdToIndex, htrim.occupant]
  exact hkept.indexed id i

/-! ## The free slots in the course of a step -/

theorem FreeListed.removedAt (h : FreeListed b) (hindexed : Indexed b) (hwell : Wellformed b.batchUpdateBuilder)
    (hr : RemovedAt b b' reqId i) :
    FreeListed b' ∧ Wellformed b'.batchUpdateBuilder ∧ b'.batchUpdateBuilder.isRemovedSorted = false ∧
      b'.batchUpdateBuilder.added = b.batchUpdateBuilder.added ∧
      b'.batchUpdateBuilder.moved = b.batchUpdateBuilder.moved := by
  have hocc := (hindexed reqId i).mp hr.index
  have hlt := occupant_lt hocc
  have hnew : i ∉ b.batchUpdateBuilder.removed := by
    intro hmem
    rw [((h.mem i).mp hmem).2] at hocc
    cases hocc
  obtain ⟨hwell', hremoved, hsorted, hadded, hmoved⟩ := hwell.removedAppend hnew hr.builder
  have hlen : b'.reqIds.length = b.reqIds.length := by
    rw [hr.reqIds, List.length_set]
  refine ⟨⟨?_, ?_⟩, hwell', hsorted, hadded, hmoved⟩
  · intro k
    rw [hremoved, hlen, hr.occupant hlt, List.mem_append, List.mem_singleton, h.mem]
    split
    · next heq =>
        subst heq
        exact iff_of_true (Or.inr rfl) ⟨hlt, rfl⟩
    · next hne => exact or_iff_left hne
  · have herase := Dict.length_keys_erase hr.index
    have hcount := h.count
    rw [hlen, hremoved, List.length_append, List.length_singleton, numReqs, hr.reqIdToIndex]
    unfold numReqs at hcount
    omega

/-- Where the next request is added. -/
theorem FreeListed.next (h : FreeListed b) (hwell : Wellformed b.batchUpdateBuilder) :
    b.nextIndex ≤ b.reqIds.length ∧ b.occupant b.nextIndex = none ∧
      Wellformed b.batchUpdateBuilder.popRemoved.2 ∧
      (∀ r, r ∈ b.batchUpdateBuilder.popRemoved.2.removed ↔
        r ∈ b.batchUpdateBuilder.removed ∧ r ≠ b.nextIndex) ∧
      (if b.nextIndex = b.reqIds.length then b.batchUpdateBuilder.popRemoved.2.removed = [] ∧
          b.batchUpdateBuilder.removed = []
        else b.batchUpdateBuilder.popRemoved.2.removed.length + 1 =
          b.batchUpdateBuilder.removed.length) ∧
      b.batchUpdateBuilder.popRemoved.2.added = b.batchUpdateBuilder.added ∧
      b.batchUpdateBuilder.popRemoved.2.moved = b.batchUpdateBuilder.moved := by
  by_cases hnil : b.batchUpdateBuilder.removed = []
  · have hpop := BatchUpdateBuilder.popRemoved_nil hnil
    have hcount := h.count
    have hindex : b.nextIndex = b.reqIds.length := by
      rw [nextIndex, hpop, ← hcount, hnil]
      rfl
    rw [hindex, hpop, hnil]
    refine ⟨le_refl _, occupant_of_length_le (le_refl _), hwell, ?_, ?_, rfl, rfl⟩
    · intro r
      simp
    · rw [if_pos rfl]
      exact ⟨rfl, rfl⟩
  · obtain ⟨index, u, hpop, hlowest⟩ := hwell.popRemoved hnil
    have hindex : b.nextIndex = index := by
      rw [nextIndex, hpop]
      rfl
    obtain ⟨hlt, hnone⟩ := (h.mem index).mp hlowest.mem
    rw [hindex, hpop]
    refine ⟨hlt.le, hnone, hlowest.wellformed, hlowest.rest, ?_, hlowest.added, hlowest.moved⟩
    rw [if_neg hlt.ne]
    exact hlowest.length

theorem AddedAt.length (ha : AddedAt b b' request i) :
    b'.reqIds.length = if i = b.reqIds.length then b.reqIds.length + 1 else b.reqIds.length := by
  rw [ha.reqIds]
  unfold addEntry
  split
  · exact List.length_append
  · exact List.length_set

theorem FreeListed.addedAt (h : FreeListed b) (hwell : Wellformed b.batchUpdateBuilder)
    (ha : AddedAt b b' request b.nextIndex) (hnew : b.reqIdToIndex.get? request.reqId = none) :
    FreeListed b' ∧ Wellformed b'.batchUpdateBuilder := by
  obtain ⟨hle, hnone, hwell', hrest, hlen, -⟩ := h.next hwell
  have hremoved : b'.batchUpdateBuilder.removed = b.batchUpdateBuilder.popRemoved.2.removed := by
    rw [ha.builder]
    rfl
  have hnum : b'.numReqs = b.numReqs + 1 := by
    rw [numReqs, ha.reqIdToIndex, Dict.length_keys_set_of_not_mem (Dict.get?_eq_none.mp hnew)]
    rfl
  refine ⟨⟨?_, ?_⟩, ?_⟩
  · intro k
    rw [hremoved, hrest, h.mem, ha.occupant hle, ha.length]
    rcases eq_or_ne k b.nextIndex with heq | hne
    · rw [if_pos heq]
      constructor
      · rintro ⟨-, hne⟩
        exact absurd heq hne
      · rintro ⟨-, hsome⟩
        cases hsome
    · rw [if_neg hne, and_iff_left hne]
      split
      · next hindex =>
          have hk : k < b.reqIds.length ↔ k < b.reqIds.length + 1 := by omega
          rw [hk]
      · exact Iff.rfl
  · have hcount := h.count
    rw [hnum, hremoved, ha.length]
    split
    · next hindex =>
        rw [if_pos hindex] at hlen
        rw [hlen.1]
        rw [hlen.2] at hcount
        omega
    · next hindex =>
        rw [if_neg hindex] at hlen
        omega
  · rw [ha.builder]
    exact ⟨hwell'.nodup, hwell'.sorted⟩

theorem Full.freeListed (h : Full b) (hbuilder : b.batchUpdateBuilder.removed = []) : FreeListed b := by
  refine ⟨?_, ?_⟩
  · intro i
    rw [hbuilder]
    constructor
    · nofun
    · rintro ⟨hlt, hnone⟩
      exact absurd hnone ((h.occupied i).mpr hlt)
  · rw [hbuilder]
    exact h.numReqs

/-- What is known of the free slots in each part of a step. -/
def Books : Phase → InputBatch E G → Prop
  | .idle, b => b.batchUpdateBuilder = {} ∧ FreeListed b
  | .removing, b => Wellformed b.batchUpdateBuilder ∧ FreeListed b ∧
      b.batchUpdateBuilder.isRemovedSorted = false
  | .adding, b => Wellformed b.batchUpdateBuilder ∧ FreeListed b
  | .swapping, b => Full b ∧ ∀ r ∈ b.batchUpdateBuilder.removed, b.reqIds.length ≤ r

theorem Books.freeListed {phase : Phase} (h : Books phase b) (hphase : phase ≠ .swapping) :
    Wellformed b.batchUpdateBuilder ∧ FreeListed b := by
  cases phase with
  | idle =>
    obtain ⟨hbuilder, hfree⟩ := h
    rw [hbuilder]
    exact ⟨BatchUpdateBuilder.wellformed_empty, hfree⟩
  | removing => exact ⟨h.1, h.2.1⟩
  | adding => exact h
  | swapping => exact absurd rfl hphase

theorem Full.swapped (h : Full b) (hindexed : Indexed b) (hs : Swapped b b' i j) : Full b' := by
  have hoccupied : ∀ k, b'.occupant k ≠ none ↔ k < b'.reqIds.length := by
    intro k
    obtain ⟨id1, id2, hid1, hid2, -⟩ := hs.occupied
    rw [hs.occupant, hs.length, ← h.occupied]
    rcases eq_or_ne k i with rfl | hi
    · rw [Equiv.swap_apply_left, hid1, hid2]
      exact iff_of_true nofun nofun
    · rcases eq_or_ne k j with rfl | hj
      · rw [Equiv.swap_apply_right, hid1, hid2]
        exact iff_of_true nofun nofun
      · rw [Equiv.swap_apply_of_ne_of_ne hi hj]
  exact ⟨hoccupied, (hindexed.swapped hs).numReqs_eq hoccupied⟩

theorem Books.same {phase : Phase} (h : Books phase b) (hsame : SameOccupants b b') : Books phase b' := by
  have hoccupant := hsame.occupant
  have hnum : b'.numReqs = b.numReqs := by
    unfold numReqs
    rw [hsame.reqIdToIndex]
  have hfree : FreeListed b → FreeListed b' := by
    rintro ⟨hmem, hcount⟩
    refine ⟨?_, ?_⟩
    · intro i
      rw [hsame.batchUpdateBuilder, hsame.reqIds, hoccupant]
      exact hmem i
    · rw [hnum, hsame.batchUpdateBuilder, hsame.reqIds]
      exact hcount
  cases phase with
  | idle => exact ⟨hsame.batchUpdateBuilder.trans h.1, hfree h.2⟩
  | removing =>
    obtain ⟨hwell, hlisted, hsorted⟩ := h
    refine ⟨?_, hfree hlisted, ?_⟩
    · rwa [hsame.batchUpdateBuilder]
    · rwa [hsame.batchUpdateBuilder]
  | adding =>
    obtain ⟨hwell, hlisted⟩ := h
    refine ⟨?_, hfree hlisted⟩
    rwa [hsame.batchUpdateBuilder]
  | swapping =>
    obtain ⟨⟨hoccupied, hlen⟩, hremoved⟩ := h
    refine ⟨⟨?_, ?_⟩, ?_⟩
    · intro i
      rw [hoccupant, hsame.reqIds]
      exact hoccupied i
    · rw [hnum, hsame.reqIds]
      exact hlen
    · rw [hsame.batchUpdateBuilder, hsame.reqIds]
      exact hremoved

/-- Refreshing the metadata gives the batch a new builder, and nothing else. -/
theorem refreshMetadata_snd (b : InputBatch E G) :
    b.refreshMetadata.2 = { b with batchUpdateBuilder := {} } := by
  unfold refreshMetadata
  split
  · rfl
  · show ({ b with batchUpdateBuilder := (b.batchUpdateBuilder.getAndReset b.numReqs).2 } :
      InputBatch E G) = _
    rw [BatchUpdateBuilder.getAndReset_snd]

theorem Kept.refreshed (h : Kept b written) : Kept b.refreshMetadata.2 written := by
  rw [refreshMetadata_snd]
  exact ⟨⟨h.shape.1, h.shape.2, h.shape.3⟩, h.indexed, h.held, h.vacant⟩

theorem Full.refreshed (h : Full b) : Books .idle b.refreshMetadata.2 := by
  rw [refreshMetadata_snd]
  refine ⟨rfl, ?_⟩
  have hfull : Full { b with batchUpdateBuilder := {} } := ⟨h.occupied, h.numReqs⟩
  exact hfull.freeListed rfl

end InputBatch

namespace BatchRun

/-- The lists fit together, the index is right, and so are the books of the free slots. This needs no
condition on the operations. -/
structure Ordered (run : BatchRun E G) : Prop where
  shape : Shape run.batch
  indexed : Indexed run.batch
  books : Books run.phase run.batch

variable {run run' : BatchRun E G} {op : BatchOp E G}

/-- What an operation can do. -/
inductive Effect (run : BatchRun E G) : BatchOp E G → BatchRun E G → Prop where
  | removeAbsent {reqId : String} (hnone : run.batch.reqIdToIndex.get? reqId = none) :
      Effect run (.remove reqId) { run with phase := .removing }
  | remove {reqId : String} {batch : InputBatch E G} {i : Nat}
      (hremoved : RemovedAt run.batch batch reqId i) :
      Effect run (.remove reqId) { run with batch, phase := .removing }
  | add {request : CachedRequestState E G} {batch : InputBatch E G}
      (hadded : AddedAt run.batch batch request run.batch.nextIndex) :
      Effect run (.add request) { run with
        batch
        phase := .adding
        requests := Function.update run.requests request.reqId (some request)
        written := Function.update run.written request.reqId
          (some (request.written batch.vocabSize batch.blockTable.blocksPerKVBlock)) }
  | condense {batch : InputBatch E G} (hcondensed : Condensed run.batch batch) :
      Effect run .condense { run with batch, phase := .swapping }
  | swap {i1 i2 : Nat} {batch : InputBatch E G} (hswapped : Swapped run.batch batch i1 i2) :
      Effect run (.swap i1 i2) { run with batch }
  | refresh :
      Effect run .refresh { run with batch := run.batch.refreshMetadata.2, phase := .idle }
  | update {reqId : String} {u : RequestUpdate} {batch : InputBatch E G}
      (hupdate : run.batch.updateRequest reqId u = .ok batch)
      (hsame : SameOccupants run.batch batch) (hshape : Shape batch) :
      Effect run (.update reqId u) { run with
        batch
        written := Function.update run.written reqId
          ((run.written reqId).map fun w => w.update batch.blockTable.blocksPerKVBlock u) }

theorem Ordered.removing (h : Ordered run) (hphase : run.phase = .idle ∨ run.phase = .removing) :
    Wellformed run.batch.batchUpdateBuilder ∧ FreeListed run.batch ∧
      run.batch.batchUpdateBuilder.isRemovedSorted = false := by
  obtain ⟨-, -, hbooks⟩ := h
  rcases hphase with hphase | hphase
  · rw [hphase] at hbooks
    obtain ⟨hbuilder, hfree⟩ := hbooks
    refine ⟨?_, hfree, ?_⟩
    · rw [hbuilder]
      exact BatchUpdateBuilder.wellformed_empty
    · rw [hbuilder]
  · rw [hphase] at hbooks
    exact hbooks

theorem Ordered.swapping (h : Ordered run) (hphase : run.phase = .swapping) :
    Full run.batch ∧ ∀ r ∈ run.batch.batchUpdateBuilder.removed, run.batch.reqIds.length ≤ r := by
  obtain ⟨-, -, hbooks⟩ := h
  rwa [hphase] at hbooks

theorem Ordered.effect (h : Ordered run) (hallowed : run.Allowed op) (hstep : run.step op = .ok run') :
    Effect run op run' := by
  cases op with
  | remove reqId =>
    obtain ⟨⟨r, batch⟩, hremove, hok⟩ := bind_eq_ok.mp hstep
    cases hok
    rcases removeRequest_eq_ok hremove h.shape fun i hi => h.indexed.lt hi with
      ⟨rfl, -, hnone⟩ | ⟨i, -, hremoved⟩
    · exact .removeAbsent hnone
    · exact .remove hremoved
  | add request =>
    obtain ⟨⟨i, batch⟩, hadd, hok⟩ := bind_eq_ok.mp hstep
    cases hok
    obtain ⟨hwell, hfree⟩ := h.books.freeListed hallowed.1
    have hadded := addRequest_eq_ok hadd h.shape (hfree.next hwell).1
    have hi := hadded.index
    subst hi
    exact .add hadded
  | condense =>
    obtain ⟨batch, hcondense, hok⟩ := bind_eq_ok.mp hstep
    cases hok
    obtain ⟨hwell, hfree⟩ := h.books.freeListed hallowed
    exact .condense (condense_eq_ok hcondense h.shape h.indexed hwell hfree)
  | swap i1 i2 =>
    obtain ⟨batch, hswap, hok⟩ := bind_eq_ok.mp hstep
    cases hok
    exact .swap (swapStates_eq_ok hswap h.shape)
  | refresh =>
    cases hstep
    exact .refresh
  | update reqId u =>
    obtain ⟨batch, hupdate, hok⟩ := bind_eq_ok.mp hstep
    cases hok
    obtain ⟨hsame, hshape⟩ := updateRequest_eq_ok hupdate h.shape h.indexed
    exact .update hupdate hsame hshape

theorem ordered_new (isPoolingModel : Bool) (maxNumReqs vocabSize : Nat) (blockTable : MultiGroupBlockTable) :
    Ordered (E := E) (G := G) { batch := .new isPoolingModel maxNumReqs vocabSize blockTable } := by
  refine ⟨⟨rfl, Nat.zero_le _, ?_⟩, ?_, rfl, ?_, rfl⟩
  · intro i _
    show (List.replicate maxNumReqs []).getD i [] = []
    rw [List.getD_eq_getElem?_getD, List.getElem?_replicate]
    split <;> rfl
  · intro id i
    exact iff_of_false nofun nofun
  · intro i
    exact iff_of_false nofun fun h => absurd h.1 (Nat.not_lt_zero i)

theorem Ordered.step (h : Ordered run) (hallowed : run.Allowed op) (heffect : Effect run op run') : Ordered run' := by
  cases heffect with
  | removeAbsent hnone =>
    obtain ⟨hwell, hfree, hsorted⟩ := h.removing hallowed
    exact ⟨h.shape, h.indexed, hwell, hfree, hsorted⟩
  | remove hremoved =>
    obtain ⟨hwell, hfree, -⟩ := h.removing hallowed
    obtain ⟨hfree', hwell', hsorted', -⟩ := hfree.removedAt h.indexed hwell hremoved
    exact ⟨hremoved.shape, h.indexed.removedAt hremoved, hwell', hfree', hsorted'⟩
  | add hadded =>
    obtain ⟨hphase, hnew, -⟩ := hallowed
    obtain ⟨hwell, hfree⟩ := h.books.freeListed hphase
    obtain ⟨hle, hnone, -⟩ := hfree.next hwell
    obtain ⟨hfree', hwell'⟩ := hfree.addedAt hwell hadded hnew
    exact ⟨hadded.shape, h.indexed.addedAt hadded hle hnone hnew, hwell', hfree'⟩
  | condense hcondensed =>
    obtain ⟨hshape, hindexed⟩ := hcondensed.ordered h.shape h.indexed
    exact ⟨hshape, hindexed, hcondensed.full, hcondensed.removed⟩
  | @swap i1 i2 batch hswapped =>
    have hphase : run.phase = .swapping := hallowed
    obtain ⟨hfull, hremoved⟩ := h.swapping hphase
    refine ⟨hswapped.shape, h.indexed.swapped hswapped, ?_⟩
    rw [hphase]
    refine ⟨hfull.swapped h.indexed hswapped, ?_⟩
    intro r hr
    rw [hswapped.length]
    apply hremoved r
    rw [hswapped.builder] at hr
    split at hr <;> exact hr
  | refresh =>
    have hbooks := (h.swapping hallowed).1.refreshed
    rw [refreshMetadata_snd] at hbooks ⊢
    exact ⟨⟨h.shape.1, h.shape.2, h.shape.3⟩, h.indexed, hbooks⟩
  | update hupdate hsame hshape =>
    exact ⟨hshape, h.indexed.same hsame, h.books.same hsame⟩

/-- A clean operation keeps what the slots hold. -/
theorem kept_step (h : Ordered run) (hkept : Kept run.batch run.written) (hallowed : run.Allowed op)
    (hclean : run.batch.Clean op) (heffect : Effect run op run') : Kept run'.batch run'.written := by
  cases heffect with
  | removeAbsent hnone => exact hkept
  | remove hremoved => exact hkept.removedAt hremoved
  | add hadded =>
    obtain ⟨hphase, hnew, hkind⟩ := hallowed
    obtain ⟨hwell, hfree⟩ := h.books.freeListed hphase
    obtain ⟨hle, hnone, -⟩ := hfree.next hwell
    exact hkept.addedAt hadded hle hnone hnew hkind hclean
  | condense hcondensed => exact hkept.condensed (h.books.freeListed hallowed).1 hcondensed hclean
  | swap hswapped => exact hkept.swapped hswapped hclean
  | refresh => exact hkept.refreshed
  | update hupdate hsame hshape => exact hkept.updated hupdate

/-- All slots are occupied, `req_id_to_index` is the inverse of `_req_ids`, and every slot holds what
was written for the request in it. -/
def KeepsStates (run : BatchRun E G) : Prop :=
  run.batch.reqIds.length = run.batch.numReqs ∧
    (∀ i, i < run.batch.numReqs → run.batch.occupant i ≠ none) ∧ Indexed run.batch ∧
    ∀ i id, run.batch.occupant i = some id → ∃ w, run.written id = some w ∧
      w.Fits run.batch.isPoolingModel ∧ w.HeldBy (run.batch.slot i)

variable {isPoolingModel : Bool} {maxNumReqs vocabSize : Nat} {blockTable : MultiGroupBlockTable}

theorem Reachable.ordered {Meets : InputBatch E G → BatchOp E G → Prop}
    (h : Reachable Meets (.new isPoolingModel maxNumReqs vocabSize blockTable) run) : Ordered run := by
  induction h with
  | start => exact ordered_new isPoolingModel maxNumReqs vocabSize blockTable
  | step h op hallowed hmeets hstep ih => exact ih.step hallowed (ih.effect hallowed hstep)

theorem Reachable.kept (h : Reachable Clean (.new isPoolingModel maxNumReqs vocabSize blockTable) run) :
    Kept run.batch run.written := by
  induction h with
  | start =>
    have hordered := ordered_new (E := E) (G := G) isPoolingModel maxNumReqs vocabSize blockTable
    exact ⟨hordered.shape, hordered.indexed, nofun, fun _ _ _ => ⟨rfl, rfl⟩⟩
  | step h op hallowed hclean hstep ih =>
    exact kept_step h.ordered ih hallowed hclean (h.ordered.effect hallowed hstep)

/-- When no operation meets a column it forgets, the batch keeps every request's state with its slot. -/
theorem persistent_batch_keeps_states (h : Reachable Clean (.new isPoolingModel maxNumReqs vocabSize blockTable) run)
    (hidle : run.phase = .idle) : KeepsStates run := by
  have hkept := h.kept
  have hbooks := h.ordered.books
  rw [hidle] at hbooks
  obtain ⟨hbuilder, hfree⟩ := hbooks
  have hfull := hfree.full (by rw [hbuilder])
  refine ⟨hfull.numReqs.symm, ?_, hkept.indexed, hkept.held⟩
  intro i hi
  rw [hfull.numReqs] at hi
  exact (hfull.occupied i).mpr hi

/-- A request that may only generate token 1. -/
def maskedRequest : CachedRequestState Nat Nat :=
  { reqId := "a", promptTokenIds := some [5, 6], samplingParams := some { allowedTokenIds := [1] },
    blockIds := [[3]] }

def plainRequest (reqId : String) : CachedRequestState Nat Nat :=
  { reqId, promptTokenIds := some [7], samplingParams := some {}, blockIds := [[4]] }

def smallBatch : InputBatch Nat Nat := .new false 4 3 ⟨[{}]⟩

/-- A swap with a request that allows all tokens takes the other one's mask away. -/
theorem swap_loses_mask : ∃ run : BatchRun Nat Nat,
    Reachable (fun _ _ => True) smallBatch run ∧ run.phase = .idle ∧ ¬ KeepsStates run := by
  have h0 : Reachable (fun _ _ => True) smallBatch _ := .start
  have h1 := h0.step (.add maskedRequest) ⟨nofun, rfl, rfl⟩ trivial rfl
  have h2 := h1.step (.add (plainRequest "b")) ⟨nofun, rfl, rfl⟩ trivial rfl
  have h3 := h2.step .condense (fun h => nomatch h) trivial rfl
  have h4 := h3.step (.swap 0 1) rfl trivial rfl
  have h5 := h4.step .refresh rfl trivial rfl
  refine ⟨_, h5, rfl, ?_⟩
  rintro ⟨-, -, -, hheld⟩
  obtain ⟨w, hw, -, hheld⟩ := hheld 1 "a" rfl
  cases hw
  have hmask := congrArg (fun s => s.mask 0) (hheld.sampling _ rfl)
  cases hmask

/-- Two requests are exchanged, then the one in front leaves and the other moves down. -/
theorem states_kept_after_move : ∃ run : BatchRun Nat Nat,
    Reachable Clean smallBatch run ∧ run.phase = .idle ∧ run.batch.reqIds = [some "b"] ∧ KeepsStates run := by
  have h0 : Reachable Clean smallBatch _ := .start
  have h1 := h0.step (.add (plainRequest "b")) ⟨nofun, rfl, rfl⟩
    ⟨fun _ => rfl, fun _ _ _ => rfl⟩ rfl
  have h2 := h1.step (.add (plainRequest "c")) ⟨nofun, rfl, rfl⟩
    ⟨fun _ => rfl, fun _ _ _ => rfl⟩ rfl
  have h3 := h2.step .condense (fun h => nomatch h) (by intro m hm; cases hm) rfl
  have h4 := h3.step (.swap 0 1) rfl rfl rfl
  have h5 := h4.step .refresh rfl trivial rfl
  have h6 := h5.step (.remove "c") (Or.inl rfl) trivial rfl
  have h7 := h6.step .condense (fun h => nomatch h) (by
    intro m hm
    have hm' : m ∈ [(1, 0)] := hm
    rw [List.mem_singleton] at hm'
    subst hm'
    exact ⟨fun _ => rfl, nofun⟩) rfl
  have h8 := h7.step .refresh rfl trivial rfl
  exact ⟨_, h8, rfl, rfl, persistent_batch_keeps_states h8 rfl⟩

end BatchRun

end Yuan.Worker
