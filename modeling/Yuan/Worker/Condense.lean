import Yuan.Worker.SlotOperations

/-!
# Condensing as a sequence of moves

`condense` walks with `last_req_index` down from the end of the batch and takes the empty indices from
below. Here its loop is cut into single moves, each from an occupied slot to a lower free one, and it is
shown that it ends with the occupied slots at the front. What a run needs to know about `condense` then
follows by induction over the moves.
-/

namespace Yuan.Worker

open BatchUpdateBuilder (Wellformed Lowest)

namespace InputBatch

variable {E G : Type} {b b' : InputBatch E G} {last turns empty : Nat} {u : BatchUpdateBuilder} {reqId : String}

/-- The moves that the loop of `condense` makes, read off the removed indices alone. -/
def condenseMoves : Nat → Nat → BatchUpdateBuilder → List (Nat × Nat)
  | 0, _, _ => []
  | turns + 1, lastReqIndex, u =>
    if u.removed = [] then []
    else
      let last := largestNonEmpty u.removed lastReqIndex
      match u.popRemoved with
      | (none, _) => []
      | (some empty, u') =>
        if empty ≥ last then [] else (last, empty) :: condenseMoves turns (last - 1) u'

/-- A sequence of moves, each to the lowest index that is still empty. -/
inductive Moves : InputBatch E G → List (Nat × Nat) → InputBatch E G → Prop where
  | nil (b : InputBatch E G) : Moves b [] b
  | cons {b b' b'' : InputBatch E G} {u : BatchUpdateBuilder} {reqId : String} {last empty : Nat}
      {moves : List (Nat × Nat)} (hlowest : Lowest b.batchUpdateBuilder u empty)
      (hoccupied : b.occupant last = some reqId) (hfree : b.occupant empty = none)
      (hlt : empty < last) (hnot : last ∉ b.batchUpdateBuilder.removed)
      (hmoved : MovedDown { b with batchUpdateBuilder := u } b' reqId last empty)
      (hrest : Moves b' moves b'') : Moves b ((last, empty) :: moves) b''

/-- The state of the loop: up to `last` the free slots are those listed as empty, and behind it every
slot is free. -/
structure Condensing (b : InputBatch E G) (last : Nat) : Prop where
  shape : Shape b
  wellformed : Wellformed b.batchUpdateBuilder
  sorted : b.batchUpdateBuilder.isRemovedSorted = true
  lt : last < b.reqIds.length
  free : ∀ i, i ≤ last → (i ∈ b.batchUpdateBuilder.removed ↔ b.occupant i = none)
  above : ∀ i, last < i → b.occupant i = none
  within : ∀ r ∈ b.batchUpdateBuilder.removed, r < b.reqIds.length
  occupied : ∃ i, b.occupant i ≠ none

theorem largestNonEmpty_le (empties : List Nat) (last : Nat) : largestNonEmpty empties last ≤ last := by
  induction last with
  | zero => exact le_refl _
  | succ last ih =>
    unfold largestNonEmpty
    split
    · exact le_trans ih (Nat.le_succ last)
    · exact le_refl _

theorem mem_of_largestNonEmpty_lt {empties : List Nat} {i : Nat} (h : largestNonEmpty empties last < i)
    (hi : i ≤ last) : i ∈ empties := by
  induction last with
  | zero =>
    omega
  | succ last ih =>
    unfold largestNonEmpty at h
    split at h
    · next hmem =>
        rcases Nat.eq_or_lt_of_le hi with rfl | hlt
        · exact hmem
        · exact ih h (Nat.le_of_lt_succ hlt)
    · omega

theorem largestNonEmpty_not_mem {empties : List Nat} (h : largestNonEmpty empties last ≠ 0) :
    largestNonEmpty empties last ∉ empties := by
  induction last with
  | zero => exact absurd rfl h
  | succ last ih =>
    unfold largestNonEmpty at h ⊢
    split
    · next hmem =>
        rw [if_pos hmem] at h
        exact ih h
    · assumption

theorem popRemoved_congr {v : BatchUpdateBuilder} (hremoved : u.removed = v.removed)
    (hsorted : u.isRemovedSorted = v.isRemovedSorted) :
    u.popRemoved.1 = v.popRemoved.1 ∧ u.popRemoved.2.removed = v.popRemoved.2.removed ∧
      u.popRemoved.2.isRemovedSorted = v.popRemoved.2.isRemovedSorted := by
  have hensure : u.ensureRemovedSorted.removed = v.ensureRemovedSorted.removed ∧
      u.ensureRemovedSorted.isRemovedSorted = v.ensureRemovedSorted.isRemovedSorted := by
    unfold BatchUpdateBuilder.ensureRemovedSorted
    rw [hsorted]
    split
    · exact ⟨hremoved, hsorted⟩
    · exact ⟨congrArg (List.insertionSort (· ≥ ·)) hremoved, rfl⟩
  unfold BatchUpdateBuilder.popRemoved
  rw [hremoved]
  split
  · exact ⟨rfl, hremoved, hsorted⟩
  · exact ⟨congrArg List.getLast? hensure.1, congrArg List.dropLast hensure.1, hensure.2⟩

theorem condenseMoves_congr {v : BatchUpdateBuilder} (hremoved : u.removed = v.removed)
    (hsorted : u.isRemovedSorted = v.isRemovedSorted) : condenseMoves turns last u = condenseMoves turns last v := by
  induction turns generalizing last u v with
  | zero => rfl
  | succ turns ih =>
    obtain ⟨hindex, hremoved', hsorted'⟩ := popRemoved_congr hremoved hsorted
    unfold condenseMoves
    rw [hremoved]
    rcases hu : u.popRemoved with ⟨x, u'⟩
    rcases hv : v.popRemoved with ⟨y, v'⟩
    rw [hu, hv] at hindex hremoved' hsorted'
    have hxy : x = y := hindex
    subst hxy
    cases x with
    | none => rfl
    | some empty =>
      have hrest := fun last => @ih last _ _ hremoved' hsorted'
      simp only [hrest]

/-- Every move goes from below the last index down to a removed one. -/
theorem mem_condenseMoves (hu : Wellformed u) {l e : Nat} (h : (l, e) ∈ condenseMoves turns last u) :
    e ∈ u.removed ∧ e < l ∧ l ≤ last := by
  induction turns generalizing last u with
  | zero => simp [condenseMoves] at h
  | succ turns ih =>
    unfold condenseMoves at h
    split at h
    · simp at h
    · next hne =>
        obtain ⟨index, u', hpop, hlowest⟩ := hu.popRemoved hne
        rw [hpop] at h
        have hle := largestNonEmpty_le u.removed last
        have hcases : (l, e) ∈ if index ≥ largestNonEmpty u.removed last then []
            else (largestNonEmpty u.removed last, index) ::
              condenseMoves turns (largestNonEmpty u.removed last - 1) u' := h
        split at hcases
        · simp at hcases
        · next hlt =>
            rcases List.mem_cons.mp hcases with heq | hrest
            · cases heq
              exact ⟨hlowest.mem, by omega, hle⟩
            · obtain ⟨hmem, hlt', hle'⟩ := ih hlowest.wellformed hrest
              exact ⟨((hlowest.rest _).mp hmem).1, hlt', by omega⟩

/-- Where the requests sit after a move. -/
theorem MovedDown.occupant (h : MovedDown b b' reqId last empty) (hlast : last < b.reqIds.length)
    (hempty : empty < b.reqIds.length) (k : Nat) :
    b'.occupant k = if k = last then none else if k = empty then some reqId else b.occupant k := by
  unfold InputBatch.occupant
  rw [h.reqIds, getD_set (by rwa [List.length_set])]
  split
  · next hk => rw [hk, Function.update_self]
  · next hk =>
      rw [Function.update_of_ne hk, getD_set hempty]
      split
      · next hk' => rw [hk', Function.update_self]
      · next hk' => rw [Function.update_of_ne hk']

theorem MovedDown.removed (h : MovedDown b b' reqId last empty) :
    b'.batchUpdateBuilder.removed = b.batchUpdateBuilder.removed ∧
      b'.batchUpdateBuilder.isRemovedSorted = b.batchUpdateBuilder.isRemovedSorted ∧
      b'.batchUpdateBuilder.added = b.batchUpdateBuilder.added := by
  rw [h.builder]
  split <;> exact ⟨rfl, rfl, rfl⟩

theorem Condensing.step {l : Nat} (hc : Condensing b last) (hlowest : Lowest b.batchUpdateBuilder u empty)
    (hl : l ≤ last) (hskip : ∀ i, l < i → b.occupant i = none) (hlt : empty < l)
    (hmoved : MovedDown { b with batchUpdateBuilder := u } b' reqId l empty) : Condensing b' (l - 1) := by
  have hlen : b'.reqIds.length = b.reqIds.length := by
    rw [hmoved.reqIds]
    simp
  have hllt : l < b.reqIds.length := lt_of_le_of_lt hl hc.lt
  have hoccupant := hmoved.occupant hllt (hlt.trans hllt)
  obtain ⟨hremoved, hsorted, -⟩ := hmoved.removed
  have hwell : Wellformed u := hlowest.wellformed
  refine ⟨hmoved.shape, ⟨?_, ?_⟩, ?_, by omega, ?_, ?_, ?_, empty, ?_⟩
  · rw [hremoved]
    exact hwell.nodup
  · intro _
    rw [hremoved]
    exact hwell.sorted hlowest.sorted
  · rw [hsorted]
    exact hlowest.sorted
  · intro i hi
    rw [hremoved, hoccupant, if_neg (by omega)]
    rw [hlowest.rest, hc.free i (by omega)]
    split
    · next heq =>
        rw [heq]
        simp
    · next hne => exact and_iff_left hne
  · intro i hi
    rw [hoccupant]
    split
    · rfl
    · next hne =>
        rw [if_neg (by omega)]
        exact hskip i (by omega)
  · intro r hr
    rw [hremoved] at hr
    rw [hlen]
    exact hc.within r ((hlowest.rest r).mp hr).1
  · rw [hoccupant, if_neg (by omega), if_pos rfl]
    nofun

/-- The loop makes its moves, and leaves the occupied slots at the front. -/
theorem condenseLoop_eq_ok (h : condenseLoop turns last b = .ok b')
    (hturns : turns = b.batchUpdateBuilder.removed.length) (hc : Condensing b last) :
    Moves b (condenseMoves turns last b.batchUpdateBuilder) b' ∧
      ∃ m, (∀ i, b'.occupant i ≠ none ↔ i < m) ∧ ∀ r ∈ b'.batchUpdateBuilder.removed, m ≤ r := by
  induction turns generalizing last b with
  | zero =>
    cases h
    have hnil := List.length_eq_zero_iff.mp hturns.symm
    refine ⟨Moves.nil _, last + 1, ?_, ?_⟩
    · intro i
      constructor
      · intro hoccupied
        by_contra hge
        exact hoccupied (hc.above i (by omega))
      · intro hlt hnone
        have hmem := (hc.free i (by omega)).mpr hnone
        rw [hnil] at hmem
        cases hmem
    · intro r hr
      rw [hnil] at hr
      cases hr
  | succ turns ih =>
    have hne : b.batchUpdateBuilder.removed ≠ [] := by
      intro hnil
      rw [hnil] at hturns
      cases hturns
    obtain ⟨empty, u, hpop, hlowest⟩ := hc.wellformed.popRemoved hne
    have hpeek := BatchUpdateBuilder.peekRemoved_of_popRemoved hpop
    have hsame : b.batchUpdateBuilder.ensureRemovedSorted = b.batchUpdateBuilder := by
      unfold BatchUpdateBuilder.ensureRemovedSorted
      rw [if_pos hc.sorted]
    rw [hsame] at hpeek
    set l := largestNonEmpty b.batchUpdateBuilder.removed last with hl
    have hle : l ≤ last := largestNonEmpty_le _ _
    have hskip : ∀ i, l < i → b.occupant i = none := by
      intro i hi
      rcases Nat.lt_or_ge last i with hlt | hge
      · exact hc.above i hlt
      · exact (hc.free i hge).mp (mem_of_largestNonEmpty_lt hi hge)
    unfold condenseLoop at h
    rw [if_neg hne, hpeek] at h
    unfold condenseMoves
    rw [if_neg hne, hpop]
    have hnot : l ∉ b.batchUpdateBuilder.removed := by
      intro hmem
      have hzero : l = 0 := by
        by_contra hpos
        exact largestNonEmpty_not_mem hpos hmem
      obtain ⟨i, hi⟩ := hc.occupied
      apply hi
      rcases Nat.eq_zero_or_pos i with rfl | hpos
      · exact hzero ▸ (hc.free l hle).mp hmem
      · exact hskip i (by omega)
    have hcases : (if empty ≥ l then Except.ok b
        else do
          let moved ← { b with batchUpdateBuilder := b.batchUpdateBuilder.popRemoved.2 }.moveDown
            l empty
          condenseLoop turns (l - 1) moved) = Except.ok b' := h
    show Moves b (if empty ≥ l then [] else (l, empty) :: condenseMoves turns (l - 1) u) b' ∧ _
    split at hcases
    · next hge =>
        have hb' : b' = b := (Except.ok.inj hcases).symm
        subst hb'
        rw [if_pos hge]
        refine ⟨Moves.nil _, l + 1, ?_, ?_⟩
        · intro i
          constructor
          · intro hoccupied
            by_contra hlt
            exact hoccupied (hskip i (by omega))
          · intro hlt hnone
            have hmem := (hc.free i (by omega)).mpr hnone
            have hle' := hlowest.le i hmem
            have heq : i = l := by omega
            exact hnot (heq ▸ hmem)
        · intro r hr
          have hle' := hlowest.le r hr
          have hne' : r ≠ l := fun heq => hnot (heq ▸ hr)
          omega
    · next hlt =>
        have hlt' : empty < l := not_le.mp hlt
        obtain ⟨moved, hmove, hloop⟩ := bind_eq_ok.mp hcases
        rw [hpop] at hmove
        have hllt : l < b.reqIds.length := lt_of_le_of_lt hle hc.lt
        have hfree : b.occupant empty = none := (hc.free empty (by omega)).mp hlowest.mem
        obtain ⟨reqId, hoccupant, hmoved⟩ := moveDown_eq_ok hmove
          ⟨hc.shape.1, hc.shape.2, hc.shape.3⟩ (hlt'.trans hllt) hlt'.ne'
        have hc' := hc.step hlowest hle hskip hlt' hmoved
        have hlen : turns = moved.batchUpdateBuilder.removed.length := by
          have hlength := hlowest.length
          rw [hmoved.removed.1]
          show turns = u.removed.length
          omega
        obtain ⟨hmoves, hend⟩ := ih hloop hlen hc'
        rw [if_neg hlt]
        rw [condenseMoves_congr hmoved.removed.1 hmoved.removed.2.1] at hmoves
        exact ⟨Moves.cons hlowest hoccupant hfree hlt' hnot hmoved hmoves, hend⟩

/-! ## The index of the requests -/

/-- `req_id_to_index` is the inverse of `_req_ids`. -/
def Indexed (b : InputBatch E G) : Prop :=
  ∀ id i, b.reqIdToIndex.get? id = some i ↔ b.occupant i = some id

theorem Indexed.lt (h : Indexed b) {id : String} {i : Nat} (hget : b.reqIdToIndex.get? id = some i) :
    i < b.reqIds.length := occupant_lt ((h id i).mp hget)

/-- When the occupied slots are those at the front, `num_reqs` is their number. -/
theorem Indexed.numReqs_eq (h : Indexed b) {m : Nat} (hm : ∀ i, b.occupant i ≠ none ↔ i < m) : b.numReqs = m := by
  have hentry : ∀ e ∈ b.reqIdToIndex.entries, b.occupant e.2 = some e.1 := by
    intro e he
    exact (h e.1 e.2).mp (Dict.get?_eq_some.mpr he)
  have hnodup : (b.reqIdToIndex.entries.map Prod.snd).Nodup := by
    apply List.Nodup.map_on _ (List.Nodup.of_map Prod.fst b.reqIdToIndex.nodup)
    intro e he e' he' heq
    have h1 := hentry e he
    rw [heq, hentry e' he'] at h1
    exact Prod.ext (Option.some.inj h1).symm heq
  have hperm : (b.reqIdToIndex.entries.map Prod.snd).Perm (List.range m) := by
    rw [List.perm_ext_iff_of_nodup hnodup List.nodup_range]
    intro i
    rw [List.mem_range, ← hm i]
    constructor
    · intro hi
      obtain ⟨e, he, rfl⟩ := List.mem_map.mp hi
      rw [hentry e he]
      nofun
    · intro hi
      obtain ⟨id, hid⟩ := Option.ne_none_iff_exists'.mp hi
      exact List.mem_map.mpr ⟨(id, i), Dict.get?_eq_some.mp ((h id i).mpr hid), rfl⟩
  have hlen := hperm.length_eq
  rw [List.length_map, List.length_range] at hlen
  rw [numReqs, Dict.keys, List.length_map]
  exact hlen

theorem Indexed.movedDown (h : Indexed b) (hoccupied : b.occupant last = some reqId) (hfree : b.occupant empty = none)
    (hempty : empty < b.reqIds.length) (hmoved : MovedDown { b with batchUpdateBuilder := u } b' reqId last empty) :
    Indexed b' := by
  have hlast := occupant_lt hoccupied
  have hne : empty ≠ last := by
    rintro rfl
    rw [hfree] at hoccupied
    cases hoccupied
  intro id i
  rw [hmoved.reqIdToIndex, hmoved.occupant hlast hempty, Dict.get?_set]
  split
  · next heq =>
      subst heq
      constructor
      · intro hi
        cases hi
        rw [if_neg hne, if_pos rfl]
      · intro hi
        split at hi
        · cases hi
        · split at hi
          · next heq => rw [heq]
          · next hilast hiempty =>
              have hi' := ((h id i).mpr hi).symm.trans ((h id last).mpr hoccupied)
              exact absurd (Option.some.inj hi') hilast
  · next hneq =>
      rw [show ({ b with batchUpdateBuilder := u } : InputBatch E G).reqIdToIndex.get? id =
        b.reqIdToIndex.get? id from rfl, h id i]
      constructor
      · intro hi
        have hilast : i ≠ last := by
          rintro rfl
          rw [hoccupied] at hi
          exact hneq (Option.some.inj hi).symm
        have hiempty : i ≠ empty := by
          rintro rfl
          rw [hfree] at hi
          cases hi
        rw [if_neg hilast, if_neg hiempty]
        exact hi
      · intro hi
        split at hi
        · cases hi
        · split at hi
          · exact absurd (Option.some.inj hi).symm hneq
          · exact hi

/-! ## Condensing -/

/-- Before `condense` the free slots are the removed indices. -/
structure FreeListed (b : InputBatch E G) : Prop where
  mem : ∀ i, i ∈ b.batchUpdateBuilder.removed ↔ i < b.reqIds.length ∧ b.occupant i = none
  count : b.numReqs + b.batchUpdateBuilder.removed.length = b.reqIds.length

/-- Every slot is occupied. -/
structure Full (b : InputBatch E G) : Prop where
  occupied : ∀ i, b.occupant i ≠ none ↔ i < b.reqIds.length
  numReqs : b.numReqs = b.reqIds.length

/-- What the moves of `condense` do not change. -/
structure KeptByMoves (b b' : InputBatch E G) : Prop where
  config : SameConfig b b'
  shape : Shape b'
  indexed : Indexed b'
  length : b'.reqIds.length = b.reqIds.length
  numReqs : b'.numReqs = b.numReqs
  added : b'.batchUpdateBuilder.added = b.batchUpdateBuilder.added

theorem Moves.kept {moves : List (Nat × Nat)} (h : Moves b moves b') (hshape : Shape b)
    (hindexed : Indexed b) : KeptByMoves b b' := by
  induction h with
  | nil b => exact ⟨SameConfig.refl b, hshape, hindexed, rfl, rfl, rfl⟩
  | @cons b b' b'' u reqId last empty moves hlowest hoccupied hfree hlt hnot hmoved hrest ih =>
    have hempty : empty < b.reqIds.length := hlt.trans (occupant_lt hoccupied)
    obtain ⟨hconfig, hshape', hindexed', hlen, hnum, hadded⟩ :=
      ih hmoved.shape (hindexed.movedDown hoccupied hfree hempty hmoved)
    have hkey : reqId ∈ b.reqIdToIndex.keys := by
      rw [← Dict.isSome_get?, (hindexed reqId last).mpr hoccupied]
      rfl
    refine ⟨?_, hshape', hindexed', ?_, ?_, ?_⟩
    · have hconfig' : SameConfig b b' :=
        ⟨hmoved.config.1, hmoved.config.2, hmoved.config.3, hmoved.config.4⟩
      exact hconfig'.trans hconfig
    · rw [hlen, hmoved.reqIds]
      simp
    · rw [hnum, numReqs, hmoved.reqIdToIndex, Dict.keys_set_of_mem hkey]
      rfl
    · rw [hadded, hmoved.removed.2.2]
      exact hlowest.added

/-- The lists were cut behind the occupied slots. -/
structure Trimmed (b b' : InputBatch E G) : Prop where
  config : SameConfig b b'
  shape : Shape b'
  reqIdToIndex : b'.reqIdToIndex = b.reqIdToIndex
  builder : b'.batchUpdateBuilder = b.batchUpdateBuilder
  occupant : ∀ i, b'.occupant i = b.occupant i
  slot : ∀ i, i < b'.reqIds.length → b'.slot i = b.slot i
  sampling : ∀ i, (b'.slot i).sampling = (b.slot i).sampling

theorem trimmed_trim (hshape : Shape b) {m : Nat} (hm : ∀ i, b.occupant i ≠ none ↔ i < m) (hle : m ≤ b.reqIds.length) :
    Trimmed b (b.trim m) := by
  have hlen : (b.reqIds.take m).length = m := List.length_take_of_le hle
  refine ⟨⟨rfl, rfl, rfl, rfl⟩, ⟨?_, ?_, ?_⟩, rfl, rfl, ?_, ?_, fun _ => rfl⟩
  · show (b.reqOutputTokenIds.take m).length = (b.reqIds.take m).length
    rw [List.length_take, List.length_take, hshape.outputs]
  · show (b.reqIds.take m).length ≤ (b.specTokenIds.take m).length
    rw [hlen, List.length_take_of_le (le_trans hle hshape.specs)]
  · intro i hi
    have hi' : m ≤ i := hlen ▸ hi
    show (b.specTokenIds.take m).getD i [] = []
    rw [getD_take, if_neg (by omega)]
  · intro i
    show (b.reqIds.take m).getD i none = _
    rw [getD_take]
    split
    · rfl
    · next hge =>
        by_contra hne
        exact hge ((hm i).mp (Ne.symm hne))
  · intro i hi
    have hi' : i < m := hlen ▸ hi
    simp only [slot, specAt, trim, getD_take, if_pos hi']
    rfl

/-- The moves that `condense` makes. -/
def moves (b : InputBatch E G) : List (Nat × Nat) :=
  condenseMoves b.batchUpdateBuilder.removed.length
    (b.numReqs + b.batchUpdateBuilder.removed.length - 1) b.readRemoved.batchUpdateBuilder

theorem occupant_of_length_le {i : Nat} (h : b.reqIds.length ≤ i) : b.occupant i = none :=
  List.getD_eq_default _ _ h

theorem Indexed.numReqs_eq_zero_iff (h : Indexed b) : b.numReqs = 0 ↔ ∀ i, b.occupant i = none := by
  constructor
  · intro hzero i
    cases hocc : b.occupant i with
    | none => rfl
    | some id =>
      have hkey : id ∈ b.reqIdToIndex.keys := by
        rw [← Dict.isSome_get?, (h id i).mpr hocc]
        rfl
      rw [List.length_eq_zero_iff.mp hzero] at hkey
      cases hkey
  · intro hnone
    apply h.numReqs_eq
    intro i
    simp [hnone i]

theorem condenseMoves_eq_nil (hu : Wellformed u) (hall : ∀ i, i ≤ last → i ∈ u.removed) :
    condenseMoves turns last u = [] := by
  cases turns with
  | zero => rfl
  | succ turns =>
    have hne : u.removed ≠ [] := List.ne_nil_of_mem (hall 0 (Nat.zero_le _))
    obtain ⟨empty, u', hpop, -⟩ := hu.popRemoved hne
    have hzero : largestNonEmpty u.removed last = 0 := by
      by_contra hpos
      exact largestNonEmpty_not_mem hpos (hall _ (largestNonEmpty_le _ _))
    unfold condenseMoves
    rw [if_neg hne, hpop, hzero]
    exact if_pos (Nat.zero_le _)

/-- What `condense` does: its moves, and a cut behind the occupied slots. -/
structure Condensed (b b' : InputBatch E G) : Prop where
  moves : ∃ b0, Moves b.readRemoved b.moves b0 ∧ Trimmed b0 b'
  full : Full b'
  removed : ∀ r ∈ b'.batchUpdateBuilder.removed, b'.reqIds.length ≤ r

/-- The listed empty indices after they were sorted. -/
theorem FreeListed.readRemoved (hfree : FreeListed b) : FreeListed b.readRemoved := by
  have hperm := BatchUpdateBuilder.perm_ensureRemovedSorted b.batchUpdateBuilder
  refine ⟨fun i => hperm.mem_iff.trans (hfree.mem i), ?_⟩
  show b.numReqs + b.batchUpdateBuilder.ensureRemovedSorted.removed.length = _
  rw [hperm.length_eq]
  exact hfree.count

theorem FreeListed.full (hfree : FreeListed b) (hnil : b.batchUpdateBuilder.removed = []) : Full b := by
  refine ⟨?_, ?_⟩
  · intro i
    constructor
    · intro hi
      by_contra hge
      exact hi (occupant_of_length_le (not_lt.mp hge))
    · intro hi hnone
      have hmem := (hfree.mem i).mpr ⟨hi, hnone⟩
      rw [hnil] at hmem
      cases hmem
  · have hcount := hfree.count
    rw [hnil] at hcount
    exact hcount

/-- Cutting behind the occupied slots leaves only occupied ones. -/
theorem Trimmed.full {m : Nat} (h : Trimmed b b') (hlen : b'.reqIds.length = m)
    (hm : ∀ i, b.occupant i ≠ none ↔ i < m) (hnum : b.numReqs = m) : Full b' := by
  refine ⟨?_, ?_⟩
  · intro i
    rw [h.occupant, hlen]
    exact hm i
  · rw [hlen, ← hnum, numReqs, h.reqIdToIndex]
    rfl

theorem condense_cases (h : b.condense = .ok b') :
    (b.readRemoved.batchUpdateBuilder.removed = [] ∧ b' = b.readRemoved) ∨
    (b.readRemoved.batchUpdateBuilder.removed ≠ [] ∧ b.numReqs = 0 ∧ b' = b.readRemoved.trim 0) ∨
    (b.readRemoved.batchUpdateBuilder.removed ≠ [] ∧ b.numReqs ≠ 0 ∧ ∃ b0,
      condenseLoop b.readRemoved.batchUpdateBuilder.removed.length
        (b.numReqs + b.readRemoved.batchUpdateBuilder.removed.length - 1) b.readRemoved = .ok b0 ∧
      b' = b0.trim b.numReqs) := by
  have hcases : (if b.readRemoved.batchUpdateBuilder.removed = [] then Except.ok b.readRemoved
      else if b.numReqs = 0 then .ok (b.readRemoved.trim 0)
      else do
        let condensed ← condenseLoop b.readRemoved.batchUpdateBuilder.removed.length
          (b.numReqs + b.readRemoved.batchUpdateBuilder.removed.length - 1) b.readRemoved
        return condensed.trim b.numReqs) = Except.ok b' := h
  split at hcases
  · next hnil => exact Or.inl ⟨hnil, (Except.ok.inj hcases).symm⟩
  · next hne =>
      right
      split at hcases
      · next hzero => exact Or.inl ⟨hne, hzero, (Except.ok.inj hcases).symm⟩
      · next hpos =>
          obtain ⟨b0, hloop, hok⟩ := bind_eq_ok.mp hcases
          exact Or.inr ⟨hne, hpos, b0, hloop, (Except.ok.inj hok).symm⟩

theorem condense_eq_ok (h : b.condense = .ok b') (hshape : Shape b) (hindexed : Indexed b)
    (hwell : Wellformed b.batchUpdateBuilder) (hfree : FreeListed b) : Condensed b b' := by
  have hlen := (BatchUpdateBuilder.perm_ensureRemovedSorted b.batchUpdateBuilder).length_eq
  have hwell1 : Wellformed b.readRemoved.batchUpdateBuilder := hwell.ensureRemovedSorted
  have hfree1 := hfree.readRemoved
  have hsorted : b.readRemoved.batchUpdateBuilder.isRemovedSorted = true :=
    BatchUpdateBuilder.isRemovedSorted_ensureRemovedSorted b.batchUpdateBuilder
  have hshape1 : Shape b.readRemoved := ⟨hshape.1, hshape.2, hshape.3⟩
  have hmoves : b.moves = condenseMoves b.readRemoved.batchUpdateBuilder.removed.length
      (b.numReqs + b.readRemoved.batchUpdateBuilder.removed.length - 1)
      b.readRemoved.batchUpdateBuilder := by
    rw [moves, ← hlen]
    rfl
  have hcount : b.numReqs + b.readRemoved.batchUpdateBuilder.removed.length = b.reqIds.length :=
    hfree1.count
  have hmem : ∀ i, i ∈ b.readRemoved.batchUpdateBuilder.removed ↔
      i < b.reqIds.length ∧ b.occupant i = none := hfree1.mem
  rcases condense_cases h with ⟨hnil, rfl⟩ | ⟨hne, hzero, rfl⟩ | ⟨hne, hpos, b0, hloop, rfl⟩
  · rw [hnil] at hmoves
    refine ⟨⟨b.readRemoved, ?_, SameConfig.refl _, hshape1, rfl, rfl, fun _ => rfl, fun _ _ => rfl,
      fun _ => rfl⟩, hfree1.full hnil, ?_⟩
    · rw [hmoves]
      exact Moves.nil _
    · intro r hr
      rw [hnil] at hr
      cases hr
  · -- no slot is occupied
    have hnone : ∀ i, b.readRemoved.occupant i = none := hindexed.numReqs_eq_zero_iff.mp hzero
    have hm : ∀ i, b.readRemoved.occupant i ≠ none ↔ i < 0 := by
      intro i
      simp [hnone i]
    have htrim := trimmed_trim hshape1 hm (Nat.zero_le _)
    refine ⟨⟨b.readRemoved, ?_, htrim⟩, htrim.full rfl hm hzero, fun r _ => Nat.zero_le r⟩
    rw [hmoves, condenseMoves_eq_nil hwell1]
    · exact Moves.nil _
    · intro i hi
      have hpos := List.length_pos_iff.mpr hne
      exact (hmem i).mpr ⟨by omega, hnone i⟩
  · have hpos' := List.length_pos_iff.mpr hne
    have hcondensing : Condensing b.readRemoved
        (b.numReqs + b.readRemoved.batchUpdateBuilder.removed.length - 1) := by
      refine ⟨hshape1, hwell1, hsorted, ?_, ?_, ?_, ?_, ?_⟩
      · show _ < b.reqIds.length
        omega
      · intro i hi
        rw [hmem]
        exact and_iff_right (by omega)
      · intro i hi
        exact occupant_of_length_le (show b.reqIds.length ≤ i by omega)
      · intro r hr
        exact ((hmem r).mp hr).1
      · by_contra hnone
        exact hpos (hindexed.numReqs_eq_zero_iff.mpr fun i => by
          by_contra hi
          exact hnone ⟨i, hi⟩)
    obtain ⟨hchain, m, hm, hremoved⟩ := condenseLoop_eq_ok hloop rfl hcondensing
    rw [← hmoves] at hchain
    have hkept := hchain.kept hshape1 hindexed
    have hnum : b0.numReqs = m := hkept.indexed.numReqs_eq hm
    have hnum' : b.numReqs = m := hkept.numReqs.symm.trans hnum
    have hle : m ≤ b0.reqIds.length := by
      by_contra hgt
      exact (hm b0.reqIds.length).mpr (not_le.mp hgt) (occupant_of_length_le (le_refl _))
    have htrim := trimmed_trim hkept.shape hm hle
    have hlen' : (b0.trim m).reqIds.length = m := List.length_take_of_le hle
    rw [hnum']
    refine ⟨⟨b0, hchain, htrim⟩, htrim.full hlen' hm hnum, ?_⟩
    intro r hr
    rw [hlen']
    exact hremoved r hr

end InputBatch

end Yuan.Worker
