import Yuan.Worker.BatchRuns
import Yuan.Worker.LogitsProcessors

/-!
# Batch updates replay exactly

A dictionary processor and the min-p processor are fed the batch update of every step. In the middle of
a step, replaying what was logged so far on their state of the step's start gives every slot's value,
except at the indices that are still listed as removed; at the end of the step these are behind the
batch, and are dropped.
-/

namespace Yuan.Worker

open BatchUpdateBuilder (Wellformed Lowest)
open InputBatch

variable {E G T β : Type}

/-- What a processor keeps for a request, from what it is told when the request is added. -/
abbrev RequestValue (β : Type) := SamplingParams → Option (List Int) → List Int → β

def valueOf (value : RequestValue β) (a : AddedRequest) : β :=
  value a.params a.promptTokIds a.outputTokIds

/-- The value of the request in a slot, computed from the batch. -/
def slotValue (value : RequestValue β) (blank : β) (b : InputBatch E G)
    (requests : String → Option (CachedRequestState E G)) (i : Nat) : β :=
  match (b.occupant i).bind requests with
  | none => blank
  | some request =>
    match request.samplingParams with
    | none => blank
    | some params => value params request.promptTokenIds request.outputTokenIds

/-- What was logged in a step, replayed on the column of its start. -/
def logged (value : RequestValue β) (blank : β) (u : BatchUpdateBuilder) (col : Nat → β) : Nat → β :=
  u.moved.foldl (moveIn blank) (addTo (valueOf value) col u.added)

/-- Away from the removed indices the log gives every slot's value. -/
def Tracks (value : RequestValue β) (blank : β) (b : InputBatch E G)
    (requests : String → Option (CachedRequestState E G)) (col : Nat → β) : Prop :=
  ∀ k, k ∉ b.batchUpdateBuilder.removed →
    logged value blank b.batchUpdateBuilder col k = slotValue value blank b requests k

/-- The log of a generation model's batch: moves are between indices that are not removed, one-way moves
lead elsewhere, and every index is one of a slot. -/
structure LogBook (b : InputBatch E G) : Prop where
  generation : b.isPoolingModel = false
  length_le : b.reqIds.length ≤ b.maxNumReqs
  added : ∀ a ∈ b.batchUpdateBuilder.added, a.index < b.maxNumReqs
  removed : ∀ r ∈ b.batchUpdateBuilder.removed, r < b.maxNumReqs
  moved : ∀ m ∈ b.batchUpdateBuilder.moved, m.fromIndex < b.maxNumReqs ∧ m.toIndex < b.maxNumReqs
  disjoint : ∀ m ∈ b.batchUpdateBuilder.moved, m.fromIndex ∉ b.batchUpdateBuilder.removed ∧
    m.toIndex ∉ b.batchUpdateBuilder.removed
  distinct : ∀ m ∈ b.batchUpdateBuilder.moved,
    m.direction = .unidirectional → m.fromIndex ≠ m.toIndex

section

variable {value : RequestValue β} {blank : β} {b b' : InputBatch E G}
  {requests : String → Option (CachedRequestState E G)} {col : Nat → β} {i : Nat} {u : BatchUpdateBuilder}
  {reqId : String} {request : CachedRequestState E G}

theorem slotValue_of_occupant {k : Nat} (h : b'.occupant i = b.occupant k) :
    slotValue value blank b' requests i = slotValue value blank b requests k := by
  unfold slotValue
  rw [h]

theorem slotValue_of_none (h : b.occupant i = none) : slotValue value blank b requests i = blank := by
  unfold slotValue
  rw [h]
  rfl

/-! ## One move of `condense` -/

theorem Tracks.movedDown {last empty : Nat} (h : Tracks value blank b requests col)
    (hgeneration : b.isPoolingModel = false) (hlowest : Lowest b.batchUpdateBuilder u empty)
    (hoccupied : b.occupant last = some reqId) (hlt : empty < last) (hnot : last ∉ b.batchUpdateBuilder.removed)
    (hmoved : MovedDown { b with batchUpdateBuilder := u } b' reqId last empty) :
    Tracks value blank b' requests col := by
  have hlast := occupant_lt hoccupied
  have hoccupant := hmoved.occupant hlast (hlt.trans hlast)
  have hbuilder : b'.batchUpdateBuilder =
      { u with moved := u.moved ++ [⟨last, empty, .unidirectional⟩] } := by
    rw [hmoved.builder]
    exact if_neg (by show ¬ b.isPoolingModel = true; rw [hgeneration]; decide)
  have hlogged : logged value blank b'.batchUpdateBuilder col =
      moveIn blank (logged value blank b.batchUpdateBuilder col) ⟨last, empty, .unidirectional⟩ := by
    rw [hbuilder]
    unfold logged
    rw [List.foldl_append, hlowest.added, hlowest.moved]
    rfl
  intro k hk
  rw [hbuilder] at hk
  rw [hlogged]
  show (if k = last then blank else if k = empty then logged value blank b.batchUpdateBuilder col last
    else logged value blank b.batchUpdateBuilder col k) = _
  split
  · next heq =>
      rw [slotValue_of_none]
      rw [hoccupant, if_pos heq]
  · next hne =>
      split
      · next heq =>
          rw [h last hnot]
          apply (slotValue_of_occupant _).symm
          rw [hoccupant, if_neg hne, if_pos heq, hoccupied]
      · next hne' =>
          rw [h k fun hmem => hk ((hlowest.rest k).mpr ⟨hmem, hne'⟩)]
          apply (slotValue_of_occupant _).symm
          rw [hoccupant, if_neg hne, if_neg hne']
          rfl

theorem LogBook.movedDown {last empty : Nat} (h : LogBook b) (hlowest : Lowest b.batchUpdateBuilder u empty)
    (hoccupied : b.occupant last = some reqId) (hlt : empty < last) (hnot : last ∉ b.batchUpdateBuilder.removed)
    (hmoved : MovedDown { b with batchUpdateBuilder := u } b' reqId last empty) : LogBook b' := by
  have hlast := lt_of_lt_of_le (occupant_lt hoccupied) h.length_le
  have hmax : b'.maxNumReqs = b.maxNumReqs := hmoved.config.maxNumReqs
  have hbuilder : b'.batchUpdateBuilder =
      { u with moved := u.moved ++ [⟨last, empty, .unidirectional⟩] } := by
    rw [hmoved.builder]
    exact if_neg (by show ¬ b.isPoolingModel = true; rw [h.generation]; decide)
  have hrest : ∀ r, r ∈ u.removed → r ∈ b.batchUpdateBuilder.removed := fun r hr =>
    ((hlowest.rest r).mp hr).1
  have hmem : ∀ m ∈ u.moved ++ [⟨last, empty, .unidirectional⟩],
      m ∈ b.batchUpdateBuilder.moved ∨ m = ⟨last, empty, .unidirectional⟩ := by
    intro m hm
    rw [hlowest.moved, List.mem_append, List.mem_singleton] at hm
    exact hm
  refine ⟨hmoved.config.isPoolingModel.trans h.generation, ?_, ?_, ?_, ?_, ?_, ?_⟩
  · rw [hmax, hmoved.reqIds]
    simpa using h.length_le
  · rw [hmax, hbuilder]
    intro a ha
    rw [hlowest.added] at ha
    exact h.added a ha
  · rw [hmax, hbuilder]
    exact fun r hr => h.removed r (hrest r hr)
  · rw [hmax, hbuilder]
    intro m hm
    rcases hmem m hm with hm | rfl
    · exact h.moved m hm
    · exact ⟨hlast, hlt.trans hlast⟩
  · rw [hbuilder]
    intro m hm
    rcases hmem m hm with hm | rfl
    · obtain ⟨hfrom, hto⟩ := h.disjoint m hm
      exact ⟨fun hr => hfrom (hrest _ hr), fun hr => hto (hrest _ hr)⟩
    · exact ⟨fun hr => hnot (hrest _ hr), fun hr => ((hlowest.rest _).mp hr).2 rfl⟩
  · rw [hbuilder]
    intro m hm hdir
    rcases hmem m hm with hm | rfl
    · exact h.distinct m hm hdir
    · exact hlt.ne'

theorem LogBook.moves {moves : List (Nat × Nat)} (h : LogBook b) (hmoves : Moves b moves b') : LogBook b' := by
  induction hmoves with
  | nil => exact h
  | cons hlowest hoccupied hfree hlt hnot hmoved hrest ih =>
    exact ih (h.movedDown hlowest hoccupied hlt hnot hmoved)

theorem Tracks.moves {moves : List (Nat × Nat)} (h : Tracks value blank b requests col)
    (hbook : LogBook b) (hmoves : Moves b moves b') : Tracks value blank b' requests col := by
  induction hmoves with
  | nil => exact h
  | cons hlowest hoccupied hfree hlt hnot hmoved hrest ih =>
    exact ih (h.movedDown hbook.generation hlowest hoccupied hlt hnot hmoved)
      (hbook.movedDown hlowest hoccupied hlt hnot hmoved)

/-! ## Operations that move nothing -/

/-- The log stays as it is, except that more indices may be removed. -/
theorem Tracks.congr (h : Tracks value blank b requests col)
    (hoccupant : ∀ k, k ∉ b'.batchUpdateBuilder.removed → b'.occupant k = b.occupant k)
    (hadded : b'.batchUpdateBuilder.added = b.batchUpdateBuilder.added)
    (hmoved : b'.batchUpdateBuilder.moved = b.batchUpdateBuilder.moved)
    (hremoved : ∀ r ∈ b.batchUpdateBuilder.removed, r ∈ b'.batchUpdateBuilder.removed) :
    Tracks value blank b' requests col := by
  intro k hk
  rw [slotValue_of_occupant (hoccupant k hk), ← h k fun hmem => hk (hremoved k hmem)]
  unfold logged
  rw [hadded, hmoved]

theorem LogBook.congr (h : LogBook b) (hconfig : SameConfig b b') (hlen : b'.reqIds.length ≤ b.reqIds.length)
    (hadded : b'.batchUpdateBuilder.added = b.batchUpdateBuilder.added)
    (hmoved : b'.batchUpdateBuilder.moved = b.batchUpdateBuilder.moved)
    (hremoved : ∀ r, r ∈ b'.batchUpdateBuilder.removed ↔ r ∈ b.batchUpdateBuilder.removed) : LogBook b' := by
  refine ⟨hconfig.isPoolingModel.trans h.generation, ?_, ?_, ?_, ?_, ?_, ?_⟩
  · rw [hconfig.maxNumReqs]
    exact hlen.trans h.length_le
  · rw [hadded, hconfig.maxNumReqs]
    exact h.added
  · intro r hr
    rw [hconfig.maxNumReqs]
    exact h.removed r ((hremoved r).mp hr)
  · rw [hmoved, hconfig.maxNumReqs]
    exact h.moved
  · rw [hmoved]
    intro m hm
    rw [hremoved, hremoved]
    exact h.disjoint m hm
  · rw [hmoved]
    exact h.distinct

theorem LogBook.same (h : LogBook b) (hsame : SameOccupants b b') : LogBook b' := by
  apply h.congr hsame.config _ _ _ _
  · rw [hsame.reqIds]
  · rw [hsame.batchUpdateBuilder]
  · rw [hsame.batchUpdateBuilder]
  · intro r
    rw [hsame.batchUpdateBuilder]

theorem Tracks.same (h : Tracks value blank b requests col) (hsame : SameOccupants b b') :
    Tracks value blank b' requests col := by
  apply h.congr (fun k _ => hsame.occupant k)
  · rw [hsame.batchUpdateBuilder]
  · rw [hsame.batchUpdateBuilder]
  · rw [hsame.batchUpdateBuilder]
    exact fun _ hr => hr

theorem LogBook.readRemoved (h : LogBook b) : LogBook b.readRemoved := by
  have hperm := BatchUpdateBuilder.perm_ensureRemovedSorted b.batchUpdateBuilder
  have hconfig : SameConfig b b.readRemoved := ⟨rfl, rfl, rfl, rfl⟩
  apply h.congr hconfig (le_refl _)
  · exact BatchUpdateBuilder.added_ensureRemovedSorted _
  · exact BatchUpdateBuilder.moved_ensureRemovedSorted _
  · exact fun r => hperm.mem_iff

theorem Tracks.readRemoved (h : Tracks value blank b requests col) : Tracks value blank b.readRemoved requests col := by
  have hperm := BatchUpdateBuilder.perm_ensureRemovedSorted b.batchUpdateBuilder
  have hoccupant : ∀ k, k ∉ b.readRemoved.batchUpdateBuilder.removed →
      b.readRemoved.occupant k = b.occupant k := fun _ _ => rfl
  apply h.congr hoccupant
  · exact BatchUpdateBuilder.added_ensureRemovedSorted _
  · exact BatchUpdateBuilder.moved_ensureRemovedSorted _
  · exact fun r hr => hperm.mem_iff.mpr hr

theorem LogBook.condensed (h : LogBook b) (hc : Condensed b b') : LogBook b' := by
  obtain ⟨b0, hmoves, htrim⟩ := hc.moves
  have hmoved := h.readRemoved.moves hmoves
  apply hmoved.congr htrim.config
  · by_contra hlong
    have hoccupied := (hc.full.occupied b0.reqIds.length).mpr (not_le.mp hlong)
    rw [htrim.occupant] at hoccupied
    exact hoccupied (occupant_of_length_le (le_refl _))
  · rw [htrim.builder]
  · rw [htrim.builder]
  · intro r
    rw [htrim.builder]

theorem Tracks.condensed (h : Tracks value blank b requests col) (hbook : LogBook b)
    (hc : Condensed b b') : Tracks value blank b' requests col := by
  obtain ⟨b0, hmoves, htrim⟩ := hc.moves
  apply (h.readRemoved.moves hbook.readRemoved hmoves).congr (fun k _ => htrim.occupant k)
  · rw [htrim.builder]
  · rw [htrim.builder]
  · rw [htrim.builder]
    exact fun _ hr => hr

/-! ## Removing and adding -/

theorem InputBatch.FreeListed.not_mem {id : String} (h : FreeListed b) (hocc : b.occupant i = some id) :
    i ∉ b.batchUpdateBuilder.removed := by
  intro hmem
  rw [((h.mem i).mp hmem).2] at hocc
  cases hocc

/-- The log of a request that is added has its own sampling parameters. -/
theorem mem_registered {a : AddedRequest} (h : a ∈ (b.registered request).added) :
    a ∈ b.batchUpdateBuilder.popRemoved.2.added ∨ ∃ params, request.samplingParams = some params ∧
        a = ⟨b.nextIndex, params, request.promptTokenIds, request.outputTokenIds⟩ := by
  unfold registered at h
  split at h
  · exact Or.inl h
  · next params hparams =>
      rcases List.mem_append.mp h with h | h
      · exact Or.inl h
      · exact Or.inr ⟨params, hparams, List.mem_singleton.mp h⟩

theorem Tracks.removedAt (h : Tracks value blank b requests col) (hindexed : Indexed b)
    (hwell : Wellformed b.batchUpdateBuilder) (hfree : FreeListed b) (hr : RemovedAt b b' reqId i) :
    Tracks value blank b' requests col := by
  have hocc := (hindexed reqId i).mp hr.index
  obtain ⟨-, hremoved, -, hadded, hmoved⟩ := hwell.removedAppend (hfree.not_mem hocc) hr.builder
  apply h.congr _ hadded hmoved
  · intro r hmem
    rw [hremoved]
    exact List.mem_append_left _ hmem
  · intro k hk
    rw [hr.occupant (occupant_lt hocc), if_neg]
    rintro rfl
    rw [hremoved] at hk
    exact hk (List.mem_append_right _ List.mem_cons_self)

theorem LogBook.removedAt (h : LogBook b) (hindexed : Indexed b) (hwell : Wellformed b.batchUpdateBuilder)
    (hfree : FreeListed b) (hnil : b.batchUpdateBuilder.moved = []) (hr : RemovedAt b b' reqId i) : LogBook b' := by
  have hocc := (hindexed reqId i).mp hr.index
  obtain ⟨-, hremoved, -, hadded, hmoved⟩ := hwell.removedAppend (hfree.not_mem hocc) hr.builder
  rw [hnil] at hmoved
  refine ⟨hr.config.isPoolingModel.trans h.generation, ?_, ?_, ?_, ?_, ?_, ?_⟩
  · rw [hr.config.maxNumReqs, hr.reqIds, List.length_set]
    exact h.length_le
  · rw [hr.config.maxNumReqs, hadded]
    exact h.added
  · rw [hr.config.maxNumReqs, hremoved]
    intro r hmem
    rcases List.mem_append.mp hmem with hmem | hmem
    · exact h.removed r hmem
    · rw [List.mem_singleton.mp hmem]
      exact lt_of_lt_of_le (occupant_lt hocc) h.length_le
  · rw [hmoved]
    nofun
  · rw [hmoved]
    nofun
  · rw [hmoved]
    nofun

/-- A request is added to the log after the others, before anything is moved. -/
theorem logged_concat {u' : BatchUpdateBuilder} {a : AddedRequest} (hadded : u'.added = u.added ++ [a])
    (hmoved : u.moved = []) (hmoved' : u'.moved = []) : logged value blank u' col =
      Function.update (logged value blank u col) a.index (valueOf value a) := by
  unfold logged addTo
  rw [hmoved, hmoved', hadded, List.foldl_append]
  rfl

theorem Tracks.addedAt (h : Tracks value blank b requests col) (hwell : Wellformed b.batchUpdateBuilder)
    (hfree : FreeListed b) (hnil : b.batchUpdateBuilder.moved = []) (ha : AddedAt b b' request b.nextIndex)
    (hnew : ∀ k, b.occupant k ≠ some request.reqId) {params : SamplingParams}
    (hparams : request.samplingParams = some params) :
    Tracks value blank b' (Function.update requests request.reqId (some request)) col := by
  obtain ⟨hle, -, -, hrest, -, hadded, hmoved⟩ := hfree.next hwell
  have hlogged : logged value blank b'.batchUpdateBuilder col =
      Function.update (logged value blank b.batchUpdateBuilder col) b.nextIndex
        (value params request.promptTokenIds request.outputTokenIds) := by
    apply logged_concat
      (a := ⟨b.nextIndex, params, request.promptTokenIds, request.outputTokenIds⟩) _ hnil
    · rw [ha.builder]
      exact hmoved.trans hnil
    · rw [ha.builder, registered]
      rw [hparams, hadded]
  intro k hk
  rw [ha.builder] at hk
  rw [hlogged]
  unfold slotValue
  rw [ha.occupant hle]
  rcases eq_or_ne k b.nextIndex with rfl | hne
  · rw [Function.update_self, if_pos rfl, Option.bind_some, Function.update_self]
    dsimp only
    rw [hparams]
  · rw [Function.update_of_ne hne, if_neg hne, h k fun hmem => hk ((hrest k).mpr ⟨hmem, hne⟩)]
    unfold slotValue
    cases hocc : b.occupant k with
    | none => rfl
    | some id =>
      have hid : id ≠ request.reqId := fun heq => hnew k (heq ▸ hocc)
      rw [Option.bind_some, Option.bind_some, Function.update_of_ne hid]

theorem LogBook.addedAt (h : LogBook b) (hwell : Wellformed b.batchUpdateBuilder) (hfree : FreeListed b)
    (hnil : b.batchUpdateBuilder.moved = []) (ha : AddedAt b b' request b.nextIndex) : LogBook b' := by
  obtain ⟨hle, -, -, hrest, -, hadded, hmoved⟩ := hfree.next hwell
  have hmax := ha.lt_max
  have hnil' : b'.batchUpdateBuilder.moved = [] := by
    rw [ha.builder]
    exact hmoved.trans hnil
  refine ⟨ha.config.isPoolingModel.trans h.generation, ?_, ?_, ?_, ?_, ?_, ?_⟩
  · have hlen := h.length_le
    rw [ha.config.maxNumReqs, ha.length]
    split <;> omega
  · rw [ha.config.maxNumReqs]
    intro a hmem
    rw [ha.builder] at hmem
    rcases mem_registered hmem with hmem | ⟨params, -, rfl⟩
    · rw [hadded] at hmem
      exact h.added a hmem
    · exact hmax
  · rw [ha.config.maxNumReqs, ha.builder]
    exact fun r hr => h.removed r ((hrest r).mp hr).1
  · rw [hnil']
    nofun
  · rw [hnil']
    nofun
  · rw [hnil']
    nofun

/-! ## Swapping -/

theorem InputBatch.Swapped.moved {j : Nat} (hs : Swapped b b' i j) (hgeneration : b.isPoolingModel = false) :
    b'.batchUpdateBuilder = { b.batchUpdateBuilder with
      moved := b.batchUpdateBuilder.moved ++ [⟨i, j, .swap⟩] } := by
  rw [hs.builder]
  apply if_neg
  rw [hgeneration]
  decide

/-- Both slots are occupied, and so not among the removed indices behind the batch. -/
theorem InputBatch.Swapped.not_mem {j : Nat} (hs : Swapped b b' i j)
    (hremoved : ∀ r ∈ b.batchUpdateBuilder.removed, b.reqIds.length ≤ r) :
    i ∉ b.batchUpdateBuilder.removed ∧ j ∉ b.batchUpdateBuilder.removed := by
  obtain ⟨id1, id2, hid1, hid2, -⟩ := hs.occupied
  refine ⟨?_, ?_⟩
  · intro hmem
    exact absurd (occupant_lt hid1) (not_lt.mpr (hremoved i hmem))
  · intro hmem
    exact absurd (occupant_lt hid2) (not_lt.mpr (hremoved j hmem))

theorem Tracks.swapped {j : Nat} (h : Tracks value blank b requests col) (hgeneration : b.isPoolingModel = false)
    (hremoved : ∀ r ∈ b.batchUpdateBuilder.removed, b.reqIds.length ≤ r) (hs : Swapped b b' i j) :
    Tracks value blank b' requests col := by
  have hbuilder := hs.moved hgeneration
  obtain ⟨hi, hj⟩ := hs.not_mem hremoved
  have hlogged : logged value blank b'.batchUpdateBuilder col =
      moveIn blank (logged value blank b.batchUpdateBuilder col) ⟨i, j, .swap⟩ := by
    rw [hbuilder]
    unfold logged
    rw [List.foldl_append]
    rfl
  intro k hk
  rw [hbuilder] at hk
  have hswap : Equiv.swap i j k ∉ b.batchUpdateBuilder.removed := by
    rcases eq_or_ne k i with rfl | hki
    · rw [Equiv.swap_apply_left]
      exact hj
    · rcases eq_or_ne k j with rfl | hkj
      · rw [Equiv.swap_apply_right]
        exact hi
      · rw [Equiv.swap_apply_of_ne_of_ne hki hkj]
        exact hk
  rw [hlogged, slotValue_of_occupant (hs.occupant k)]
  exact h _ hswap

theorem LogBook.swapped {j : Nat} (h : LogBook b) (hremoved : ∀ r ∈ b.batchUpdateBuilder.removed, b.reqIds.length ≤ r)
    (hs : Swapped b b' i j) : LogBook b' := by
  have hbuilder := hs.moved h.generation
  obtain ⟨hi, hj⟩ := hs.not_mem hremoved
  obtain ⟨id1, id2, hid1, hid2, -⟩ := hs.occupied
  have hmem : ∀ m ∈ b'.batchUpdateBuilder.moved,
      m ∈ b.batchUpdateBuilder.moved ∨ m = ⟨i, j, .swap⟩ := by
    intro m hm
    rw [hbuilder, List.mem_append, List.mem_singleton] at hm
    exact hm
  refine ⟨hs.config.isPoolingModel.trans h.generation, ?_, ?_, ?_, ?_, ?_, ?_⟩
  · rw [hs.config.maxNumReqs, hs.length]
    exact h.length_le
  · rw [hs.config.maxNumReqs, hbuilder]
    exact h.added
  · rw [hs.config.maxNumReqs, hbuilder]
    exact h.removed
  · rw [hs.config.maxNumReqs]
    intro m hm
    rcases hmem m hm with hm | rfl
    · exact h.moved m hm
    · exact ⟨lt_of_lt_of_le (occupant_lt hid1) h.length_le,
        lt_of_lt_of_le (occupant_lt hid2) h.length_le⟩
  · intro m hm
    rw [hbuilder]
    rcases hmem m hm with hm | rfl
    · exact h.disjoint m hm
    · exact ⟨hi, hj⟩
  · intro m hm hdir
    rcases hmem m hm with hm | rfl
    · exact h.distinct m hm hdir
    · cases hdir

/-! ## The end of a step -/

theorem refreshMetadata_fst (hgeneration : b.isPoolingModel = false) :
    b.refreshMetadata.1 = (b.batchUpdateBuilder.getAndReset b.numReqs).1 := by
  unfold refreshMetadata
  rw [if_neg (by rw [hgeneration]; decide)]

/-- A step without an update changed nothing. -/
theorem Tracks.unchanged (h : Tracks value blank b requests col) (hgeneration : b.isPoolingModel = false)
    (hnone : b.refreshMetadata.1 = none) (k : Nat) : col k = slotValue value blank b requests k := by
  rw [refreshMetadata_fst hgeneration] at hnone
  unfold BatchUpdateBuilder.getAndReset at hnone
  dsimp only at hnone
  split at hnone
  · next hempty =>
      obtain ⟨hremoved, hmoved, hadded⟩ := hempty
      rw [← h k (by rw [hremoved]; exact List.not_mem_nil)]
      unfold logged
      rw [hmoved, hadded]
      rfl
  · cases hnone

/-- The update that a step ends with has the lists of the log. -/
theorem refreshMetadata_eq_some {u : BatchUpdate} (hgeneration : b.isPoolingModel = false)
    (hsome : b.refreshMetadata.1 = some u) : u.removed = b.batchUpdateBuilder.removed ∧
      u.added = b.batchUpdateBuilder.added ∧ u.moved = b.batchUpdateBuilder.moved := by
  rw [refreshMetadata_fst hgeneration] at hsome
  unfold BatchUpdateBuilder.getAndReset at hsome
  dsimp only at hsome
  split at hsome
  · cases hsome
  · cases hsome
    exact ⟨rfl, rfl, rfl⟩

/-- The replayed update gives every slot's value: the indices that stay removed are behind the batch. -/
theorem Tracks.replayed {u : BatchUpdate} (h : Tracks value blank b requests col) (hbook : LogBook b)
    (hremoved : ∀ r ∈ b.batchUpdateBuilder.removed, b.reqIds.length ≤ r)
    (hsome : b.refreshMetadata.1 = some u) (k : Nat) :
    replay (valueOf value) blank col u k = slotValue value blank b requests k := by
  obtain ⟨hr, ha, hm⟩ := refreshMetadata_eq_some hbook.generation hsome
  unfold replay
  rw [hr, ha, hm, foldl_moveIn_dropFrom blank hbook.disjoint]
  unfold dropFrom
  split
  · next hmem => exact (slotValue_of_none (occupant_of_length_le (hremoved k hmem))).symm
  · next hmem => exact h k hmem

/-- With a new builder, the columns that track the batch are those that have every slot's value. -/
theorem Tracks.ofBuilder (hbuilder : b.batchUpdateBuilder = {})
    (h : ∀ k, col k = slotValue value blank b requests k) : Tracks value blank b requests col := by
  intro k _
  rw [hbuilder]
  exact h k

theorem Tracks.ofIdle (h : Tracks value blank b requests col) (hbuilder : b.batchUpdateBuilder = {})
    (k : Nat) : col k = slotValue value blank b requests k := by
  have hk := h k (by rw [hbuilder]; exact List.not_mem_nil)
  rw [hbuilder] at hk
  exact hk

theorem LogBook.refreshed (h : LogBook b) : LogBook b.refreshMetadata.2 := by
  rw [refreshMetadata_snd]
  exact ⟨h.generation, h.length_le, nofun, nofun, nofun, nofun, nofun⟩

end

end Yuan.Worker
