import Yuan.Core.CacheHit
import Yuan.Core.HashedBlocks

/-!
# The events of stored blocks

With events enabled, `cache_full_blocks` reports the blocks it caches, so that an index outside can follow the
prefix cache: their hashes, the hash before them, the tokens, and the extra keys of each block. The extra keys are
computed once more for the event, by a walk over all items.

An event describes its blocks if each hash in it is the hash of what the event says of the block.
-/

namespace Yuan.Core

/-- `BlockStored`; `γ` is the type of hashes outside. -/
structure BlockStored (β γ : Type) where
  blockHashes : List γ
  parentBlockHash : Option γ
  tokenIds : List Nat
  blockSize : Nat
  loraId : Option Nat
  medium : String
  loraName : Option String
  extraKeys : Option (List (Option (List (ExtraKey (List β)))))

section Event

variable {β γ : Type} (fns : HashFunctions (List β)) (convert : List β → γ) (isNull : Nat → Bool)

/-- `new_hashes`: the hashes of the blocks that are not null. -/
def newHashes : List Nat → List (List β) → List γ
  | [], _ => []
  | b :: bs, hashes =>
    if isNull b then newHashes bs hashes.tail
    else
      match hashes with
      | [] => []
      | hash :: hashes => convert hash :: newHashes bs hashes

/-- The loop that makes `extra_keys_list`, for the next `count` blocks. -/
def extraKeysList (r : Request (List β)) (blocks : List Nat) (blockSize : Nat) :
    Nat → Nat → Int → Except PyError (List (Option (List (ExtraKey (List β)))))
  | 0, _, _ => .ok []
  | count + 1, i, currMmIdx =>
    match blocks[i]? with
    | none => .error (.indexError "list index out of range")
    | some b =>
      if isNull b then extraKeysList r blocks blockSize count (i + 1) currMmIdx
      else do
        let (extraKeys, currMmIdx) :=
          generateBlockHashExtraKeys fns r (i * blockSize) (i * blockSize + blockSize) currMmIdx
        let rest ← extraKeysList r blocks blockSize count (i + 1) currMmIdx
        return extraKeys :: rest

/-- `block_hashes[num_cached_blocks - 1]`, if there is a block before. -/
def parentHash (blockHashes : List (List β)) (numCachedBlocks : Nat) : Except PyError (Option γ) :=
  if numCachedBlocks = 0 then .ok none
  else
    match blockHashes[numCachedBlocks - 1]? with
    | some hash => .ok (some (convert hash))
    | none => .error (.indexError "list index out of range")

variable [DecidableEq β]

/-- `cache_full_blocks` with events enabled. -/
def BlockPool.cacheFullBlocksWithEvent (p : BlockPool (List β × Nat)) (hashBlockSize : Nat) (r : Request (List β))
    (blocks : List Nat) (numCachedBlocks numFullBlocks blockSize kvCacheGroupId : Nat) :
    Except PyError (BlockPool (List β × Nat) × Option (BlockStored β γ)) := do
  if numCachedBlocks ≥ numFullBlocks then return (p, none)
  pyAssert (r.blockHashes.length ≥ numFullBlocks) "len(request.block_hashes) >= num_full_blocks"
  pyAssert (blockSize = hashBlockSize ∨ blockSize % hashBlockSize = 0) "block_size % self.hash_block_size == 0"
  let blockHashes := CacheHit.getBlockHashes hashBlockSize r.blockHashes blockSize
  let newFullBlocks := (blocks.take numFullBlocks).drop numCachedBlocks
  let newBlockHashes := blockHashes.drop numCachedBlocks
  let pool ← p.cacheLoop newFullBlocks (newBlockHashes.map fun blockHash => (blockHash, kvCacheGroupId))
  let parentBlockHash ← parentHash convert blockHashes numCachedBlocks
  let isNull := fun b => (p.blocks b).isNull
  let extraKeysList ← extraKeysList fns isNull r blocks blockSize (numFullBlocks - numCachedBlocks) numCachedBlocks 0
  return (pool, some {
    blockHashes := newHashes convert isNull newFullBlocks newBlockHashes
    parentBlockHash
    tokenIds := (r.allTokenIds.take (numFullBlocks * blockSize)).drop (numCachedBlocks * blockSize)
    blockSize
    loraId := r.loraRequest.map LoRARequest.loraIntId
    medium := "GPU"
    loraName := r.loraRequest.map LoRARequest.loraName
    extraKeys := if extraKeysList.isEmpty then none else some extraKeysList })

variable {fns convert}

/-- What an event says: everything but the pool, of a call that stored blocks. -/
structure EventOf (fns : HashFunctions (List β)) (convert : List β → γ) (isNull : Nat → Bool) (hashBlockSize : Nat)
    (r : Request (List β)) (blocks : List Nat) (numCachedBlocks numFullBlocks blockSize : Nat)
    (event : BlockStored β γ) : Prop where
  new : numCachedBlocks < numFullBlocks
  hashed : numFullBlocks ≤ r.blockHashes.length
  divides : blockSize = hashBlockSize ∨ blockSize % hashBlockSize = 0
  hashes : event.blockHashes = newHashes convert isNull ((blocks.take numFullBlocks).drop numCachedBlocks)
    ((CacheHit.getBlockHashes hashBlockSize r.blockHashes blockSize).drop numCachedBlocks)
  parent : parentHash convert (CacheHit.getBlockHashes hashBlockSize r.blockHashes blockSize) numCachedBlocks =
    .ok event.parentBlockHash
  tokens : event.tokenIds = (r.allTokenIds.take (numFullBlocks * blockSize)).drop (numCachedBlocks * blockSize)
  keys : ∃ keys, extraKeysList fns isNull r blocks blockSize (numFullBlocks - numCachedBlocks) numCachedBlocks 0 =
    .ok keys ∧ event.extraKeys.getD [] = keys
  size : event.blockSize = blockSize

theorem eventOf_of_run {p p' : BlockPool (List β × Nat)} {hashBlockSize : Nat} {r : Request (List β)}
    {blocks : List Nat} {numCachedBlocks numFullBlocks blockSize kvCacheGroupId : Nat} {event : BlockStored β γ}
    (h : p.cacheFullBlocksWithEvent fns convert hashBlockSize r blocks numCachedBlocks numFullBlocks blockSize
      kvCacheGroupId = .ok (p', some event)) :
    EventOf fns convert (fun b => (p.blocks b).isNull) hashBlockSize r blocks numCachedBlocks numFullBlocks blockSize
      event := by
  unfold BlockPool.cacheFullBlocksWithEvent at h
  split_ifs at h with hnew
  · cases (ok_pair h).2
  · obtain ⟨_, hlength, h⟩ := bind_eq_ok.mp h
    obtain ⟨_, hdivides, h⟩ := bind_eq_ok.mp h
    obtain ⟨pool, -, h⟩ := bind_eq_ok.mp h
    obtain ⟨parent, hparent, h⟩ := bind_eq_ok.mp h
    obtain ⟨keys, hkeys, h⟩ := bind_eq_ok.mp h
    obtain rfl := Option.some.inj (ok_pair h).2
    refine ⟨by omega, of_decide_eq_true (pyAssert_eq_ok.mp hlength), of_decide_eq_true (pyAssert_eq_ok.mp hdivides),
      rfl, hparent, rfl, ⟨keys, hkeys, ?_⟩, rfl⟩
    cases keys with
    | nil => rfl
    | cons key keys => rfl

end Event

/-! ## The items of an event -/

/-- The items that a walk has passed at `a` and that end exactly there, unless all items end before. -/
def endingAt (fs : List MultiModalFeatureSpec) (a : Nat) : List String :=
  match fs.getLast? with
  | none => []
  | some last =>
    if last.stop < a then []
    else ((fs.takeWhile (passed a)).filter fun f => decide (f.stop = a)).map MultiModalFeatureSpec.identifier

/-- The identifiers that the event gives a block: the first block also gets items that end where it starts. -/
def eventItemKeys (fs : List MultiModalFeatureSpec) (isFirst : Bool) (a b : Nat) : List String :=
  (if isFirst then endingAt fs a else []) ++ itemKeys fs a b

section Items

variable {fs : List MultiModalFeatureSpec} {a b : Nat}

/-- A walk that starts with the first item skips the items that a walk from the first block has passed, except those
that end at `a`. -/
theorem mmLoop_from_first (hab : a < b) (l : List MultiModalFeatureSpec) (i : Nat) :
    (mmLoop a b l i).1 =
      ((l.takeWhile (passed a)).filter fun f => decide (f.stop = a)).map MultiModalFeatureSpec.identifier ++
        (mmLoop a b (l.drop (walkIndex l a)) 0).1 := by
  induction l generalizing i with
  | nil => rfl
  | cons f l ih =>
    by_cases hf : passed a f = true
    · have hindex : walkIndex (f :: l) a = walkIndex l a + 1 := by
        unfold walkIndex
        rw [List.takeWhile_cons_of_pos hf, List.length_cons]
      have hpassed := hf
      simp only [passed, decide_eq_true_eq] at hpassed
      rw [List.takeWhile_cons_of_pos hf, hindex, List.drop_succ_cons]
      conv_lhs => unfold mmLoop
      rw [if_pos (by omega)]
      by_cases hend : a > f.stop
      · -- the item ends before the block
        rw [if_pos hend, List.filter_cons_of_neg (by simp only [decide_eq_true_eq]; omega)]
        exact ih (i + 1)
      · rw [if_neg hend, if_pos (by omega), List.filter_cons_of_pos (by simp only [decide_eq_true_eq]; omega)]
        rw [List.map_cons, List.cons_append, ← ih (i + 1)]
    · have hindex : walkIndex (f :: l) a = 0 := by
        unfold walkIndex
        rw [List.takeWhile_cons_of_neg hf]
        rfl
      rw [List.takeWhile_cons_of_neg hf, hindex]
      exact mmLoop_fst a b (f :: l) i 0

/-- The first block of an event. -/
theorem genMmExtraHashKeys_first (fs : List MultiModalFeatureSpec) (hab : a < b) :
    (genMmExtraHashKeys fs a b 0).1 = eventItemKeys fs true a b ∧
      ∀ e, IndexOk fs b e (normIndex fs (genMmExtraHashKeys fs a b 0).2) := by
  unfold eventItemKeys endingAt itemKeys
  cases hlast : fs.getLast? with
  | none =>
    obtain rfl := List.getLast?_eq_none_iff.mp hlast
    exact ⟨rfl, fun _ => .inl rfl⟩
  | some last =>
    by_cases ha : last.stop < a
    · have hgen : genMmExtraHashKeys fs a b 0 = ([], 0) := by
        unfold genMmExtraHashKeys
        simp only [hlast, if_pos ha]
      rw [hgen]
      simp only [if_pos ha]
      exact ⟨rfl, fun _ => .inr (.inl ⟨last, hlast, by omega⟩)⟩
    · rw [genMm_eq hlast ha]
      have hzero : normIndex fs 0 = 0 := normIndex_natCast fs 0
      rw [hzero, List.drop_zero]
      simp only [if_neg ha, if_true]
      refine ⟨?_, fun _ => .inr (.inr (.inl ?_))⟩
      · rw [mmLoop_from_first hab, mmLoop_fst a b _ 0]
      · rw [normIndex_natCast, mmLoop_index hab.le, Nat.zero_add]
        rfl

end Items

section Keys

variable {β : Type} {fns : HashFunctions (List β)} {isNull : Nat → Bool} {r : Request (List β)} {blocks : List Nat}
variable {blockSize : Nat} {keys : List (Option (List (ExtraKey (List β))))} {count : Nat}

/-- The extra keys of a block that is not null, and those behind it. -/
theorem extraKeysList_succ {i : Nat} {currMmIdx : Int}
    (h : extraKeysList fns isNull r blocks blockSize (count + 1) i currMmIdx = .ok keys)
    (hlive : ∀ b ∈ blocks[i]?, isNull b = false) : ∃ rest, extraKeysList fns isNull r blocks blockSize count (i + 1)
        (genMmExtraHashKeys r.mmFeatures (i * blockSize) (i * blockSize + blockSize) currMmIdx).2 = .ok rest ∧
      keys = extraKeys fns r (i * blockSize) (i * blockSize + blockSize)
        (genMmExtraHashKeys r.mmFeatures (i * blockSize) (i * blockSize + blockSize) currMmIdx).1 :: rest := by
  unfold extraKeysList at h
  split at h
  · cases h
  · next b hb =>
      rw [if_neg (by rw [hlive b hb]; decide)] at h
      obtain ⟨rest, hrest, h⟩ := bind_eq_ok.mp h
      exact ⟨rest, hrest, (Except.ok.inj h).symm⟩

/-- The extra keys of blocks that are not null, from where the item index is right. -/
theorem extraKeysList_walk (hbs : 0 < blockSize) {i : Nat} {currMmIdx : Int}
    (hlive : ∀ j < count, ∀ b ∈ blocks[i + j]?, isNull b = false)
    (hindex : ∀ e, i * blockSize ≤ e → IndexOk r.mmFeatures (i * blockSize) e (normIndex r.mmFeatures currMmIdx))
    (h : extraKeysList fns isNull r blocks blockSize count i currMmIdx = .ok keys) :
    keys.length = count ∧ ∀ j < count, keys[j]? = some (extraKeys fns r ((i + j) * blockSize)
      ((i + j) * blockSize + blockSize) (itemKeys r.mmFeatures ((i + j) * blockSize)
        ((i + j) * blockSize + blockSize))) := by
  induction count generalizing i currMmIdx keys with
  | zero =>
    cases h
    exact ⟨rfl, fun j hj => absurd hj (Nat.not_lt_zero j)⟩
  | succ count ih =>
    obtain ⟨rest, hrest, rfl⟩ := extraKeysList_succ h (hlive 0 (Nat.succ_pos count))
    have hab : i * blockSize < i * blockSize + blockSize := Nat.lt_add_of_pos_right hbs
    have hsucc : (i + 1) * blockSize = i * blockSize + blockSize := by rw [Nat.add_mul, Nat.one_mul]
    have hkeys := (genMmExtraHashKeys_step (hindex _ hab.le) hab.le le_rfl).1
    obtain ⟨hlength, hrest⟩ := ih
      (fun j hj b hb => hlive (j + 1) (Nat.succ_lt_succ hj) b (by rwa [Nat.add_comm j, ← Nat.add_assoc]))
      (fun e he => by
        rw [hsucc] at he ⊢
        exact (genMmExtraHashKeys_step (hindex e (hab.le.trans he)) hab.le he).2) hrest
    refine ⟨by rw [List.length_cons, hlength], fun j hj => ?_⟩
    cases j with
    | zero =>
      rw [hkeys]
      rfl
    | succ j =>
      rw [List.getElem?_cons_succ, hrest j (Nat.lt_of_succ_lt_succ hj), show i + (j + 1) = i + 1 + j by omega]

/-- The extra keys of an event whose blocks are not null. -/
theorem extraKeysList_live (hbs : 0 < blockSize) {i : Nat} (hlive : ∀ j < count, ∀ b ∈ blocks[i + j]?, isNull b = false)
    (h : extraKeysList fns isNull r blocks blockSize count i 0 = .ok keys) :
    keys.length = count ∧ ∀ j < count, keys[j]? = some (extraKeys fns r ((i + j) * blockSize)
      ((i + j) * blockSize + blockSize) (eventItemKeys r.mmFeatures (decide (j = 0)) ((i + j) * blockSize)
        ((i + j) * blockSize + blockSize))) := by
  cases count with
  | zero =>
    cases h
    exact ⟨rfl, fun j hj => absurd hj (Nat.not_lt_zero j)⟩
  | succ count =>
    obtain ⟨rest, hrest, rfl⟩ := extraKeysList_succ h (hlive 0 (Nat.succ_pos count))
    have hsucc : (i + 1) * blockSize = i * blockSize + blockSize := by rw [Nat.add_mul, Nat.one_mul]
    obtain ⟨hkeys, hnext⟩ := genMmExtraHashKeys_first r.mmFeatures
      (Nat.lt_add_of_pos_right hbs : i * blockSize < i * blockSize + blockSize)
    obtain ⟨hlength, hrest⟩ := extraKeysList_walk hbs
      (fun j hj b hb => hlive (j + 1) (Nat.succ_lt_succ hj) b (by rwa [Nat.add_comm j, ← Nat.add_assoc]))
      (fun e _ => by
        rw [hsucc]
        exact hnext e) hrest
    refine ⟨by rw [List.length_cons, hlength], fun j hj => ?_⟩
    cases j with
    | zero =>
      rw [hkeys]
      rfl
    | succ j =>
      rw [List.getElem?_cons_succ, hrest j (Nat.lt_of_succ_lt_succ hj), show i + (j + 1) = i + 1 + j by omega]
      rfl

/-- The other extra keys of a block are the same: the keys are equal if the identifiers are. -/
theorem extraKeys_inj {a b : Nat} {keys keys' : List String}
    (h : extraKeys fns r a b keys = extraKeys fns r a b keys') : keys = keys' := by
  have hlist : ∀ l l' : List (ExtraKey (List β)),
      (if l.isEmpty then none else some l) = (if l'.isEmpty then none else some l') → l = l' := by
    intro l l' hl
    cases l <;> cases l'
    · rfl
    · cases hl
    · cases hl
    · exact Option.some.inj hl
  have hall := hlist _ _ h
  have hmm := List.append_cancel_left (List.append_cancel_right (List.append_cancel_right hall))
  exact List.map_injective_iff.mpr (fun _ _ heq => ExtraKey.str.inj heq) hmm

end Keys

/-! ## Events that describe their blocks -/

section Describes

variable {β γ : Type}

/-- The blocks that a call caches: those of the range that are not null. -/
def newlyCached (isNull : Nat → Bool) (blocks : List Nat) (numCachedBlocks numFullBlocks : Nat) : List Nat :=
  (List.range' numCachedBlocks (numFullBlocks - numCachedBlocks)).filter fun i => blocks[i]?.any fun b => !isNull b

namespace BlockStored

variable (event : BlockStored β γ)

/-- The hash before block `k` of the event. -/
def parentOf (k : Nat) : Option γ := if k = 0 then event.parentBlockHash else event.blockHashes[k - 1]?

/-- The tokens of block `k` of the event. -/
def tokensOf (k : Nat) : List Nat := (event.tokenIds.drop (k * event.blockSize)).take event.blockSize

/-- The extra keys of block `k` of the event. -/
def keysOf (k : Nat) : Option (List (ExtraKey (List β))) := ((event.extraKeys.getD [])[k]?).join

end BlockStored

/-- The event has a hash for each cached block, and says what went into it; its tokens are those of the blocks. A
block of the pool is made of `scale` hashed ones: what went into a joined hash cannot be said. -/
structure Describes (fns : HashFunctions (List β)) (convert : List β → γ) (hashed : List (HashedBlock (List β)))
    (scale : Nat) (cached : List Nat) (event : BlockStored β γ) : Prop where
  hashes : event.blockHashes.length = cached.length
  tokens : cached ≠ [] → event.tokenIds.length = cached.length * event.blockSize
  blocks : ∀ k i, cached[k]? = some i → ∃ h, ((List.range scale).map fun j => hashed[i * scale + j]?) = [some h] ∧
    event.blockHashes[k]? = some (convert (h.hash fns)) ∧ event.parentOf k = h.parentBlockHash.map convert ∧
      event.tokensOf k = h.currBlockTokenIds ∧ event.keysOf k = h.extraKeys

/-- When an event describes its blocks: no block is cached; or the blocks are those that were hashed, none of the
range is null, and the walk of the event finds the items in each that the hasher has found. -/
def EventOk (isNull : Nat → Bool) (hashBlockSize : Nat) (r : Request (List β)) (hashed : List (HashedBlock (List β)))
    (blocks : List Nat) (numCachedBlocks numFullBlocks blockSize : Nat) : Prop :=
  newlyCached isNull blocks numCachedBlocks numFullBlocks = [] ∨
    (blockSize = hashBlockSize ∧
      (∀ i, numCachedBlocks ≤ i → i < numFullBlocks → ∃ b, blocks[i]? = some b ∧ isNull b = false) ∧
      ∀ i h, numCachedBlocks ≤ i → i < numFullBlocks → hashed[i]? = some h →
        eventItemKeys r.mmFeatures (decide (i = numCachedBlocks)) (i * blockSize) (i * blockSize + blockSize) =
          hasherKeys h.mmFeatures h.callStart (i * blockSize) (i * blockSize + blockSize))

section Hashes

variable {convert : List β → γ} {isNull : Nat → Bool} {nc nf : Nat}

theorem newHashes_null {bs : List Nat} (hnull : ∀ b ∈ bs, isNull b = true) (hashes : List (List β)) :
    newHashes convert isNull bs hashes = [] := by
  induction bs generalizing hashes with
  | nil => rfl
  | cons b bs ih =>
    unfold newHashes
    rw [if_pos (hnull b List.mem_cons_self)]
    exact ih (fun b hb => hnull b (List.mem_cons_of_mem _ hb)) _

theorem newHashes_live {bs : List Nat} (hlive : ∀ b ∈ bs, isNull b = false) {hashes : List (List β)}
    (hlength : bs.length ≤ hashes.length) :
    newHashes convert isNull bs hashes = (hashes.take bs.length).map convert := by
  induction bs generalizing hashes with
  | nil => rfl
  | cons b bs ih =>
    cases hashes with
    | nil => exact absurd hlength (by simp)
    | cons hash hashes =>
      unfold newHashes
      rw [if_neg (by rw [hlive b List.mem_cons_self]; decide)]
      dsimp only
      rw [ih (fun b hb => hlive b (List.mem_cons_of_mem _ hb)) (Nat.le_of_succ_le_succ hlength)]
      rfl

theorem newlyCached_eq_nil {blocks : List Nat} (h : newlyCached isNull blocks nc nf = []) :
    ∀ i, nc ≤ i → i < nf → ∀ b ∈ blocks[i]?, isNull b = true := by
  intro i hnc hnf b hb
  have hnot := List.filter_eq_nil_iff.mp h i (List.mem_range'_1.mpr ⟨hnc, by omega⟩)
  rw [show blocks[i]? = some b from hb] at hnot
  simpa using hnot

theorem newlyCached_live {blocks : List Nat} (h : ∀ i, nc ≤ i → i < nf → ∃ b, blocks[i]? = some b ∧ isNull b = false) :
    newlyCached isNull blocks nc nf = List.range' nc (nf - nc) := by
  apply List.filter_eq_self.mpr
  intro i hi
  obtain ⟨hnc, hnf⟩ := List.mem_range'_1.mp hi
  obtain ⟨b, hb, hlive⟩ := h i hnc (by omega)
  rw [hb, Option.any_some, hlive]
  rfl

theorem live_of_length {blocks : List Nat} (h : (newlyCached isNull blocks nc nf).length = nf - nc) :
    ∀ i, nc ≤ i → i < nf → ∃ b, blocks[i]? = some b ∧ isNull b = false := by
  have hall : newlyCached isNull blocks nc nf = List.range' nc (nf - nc) :=
    List.Sublist.eq_of_length List.filter_sublist (by rw [List.length_range']; exact h)
  intro i hnc hnf
  have hin := List.filter_eq_self.mp hall i (List.mem_range'_1.mpr ⟨hnc, by omega⟩)
  obtain ⟨b, hb, hlive⟩ := (Option.any_eq_true _ _).mp hin
  exact ⟨b, hb, by simpa using hlive⟩

end Hashes

section Event

variable {fns : HashFunctions (List β)} {convert : List β → γ} {isNull : Nat → Bool} {hashBlockSize : Nat}
variable {r : Request (List β)} {hashed : List (HashedBlock (List β))} {blocks : List Nat}
variable {nc nf blockSize : Nat} {event : BlockStored β γ}

/-- The hash of block `i`. -/
theorem HashesOf.getElem? (hof : HashesOf fns hashBlockSize r hashed) (i : Nat) :
    r.blockHashes[i]? = (hashed[i]?).map (HashedBlock.hash fns) := by
  rw [hof.hashes, List.getElem?_map]

section

variable (hev : EventOf fns convert isNull hashBlockSize r blocks nc nf hashBlockSize event)
include hev

section

variable (hof : HashesOf fns hashBlockSize r hashed)
include hof

section

variable (hlive : ∀ i, nc ≤ i → i < nf → ∃ b, blocks[i]? = some b ∧ isNull b = false)
include hlive

/-- With the block size of the hasher, an event of blocks that are not null has the hash of each. -/
theorem EventOf.getElem?_blockHashes :
    event.blockHashes.length = nf - nc ∧ ∀ k < nf - nc,
      event.blockHashes[k]? = (hashed[nc + k]?).map fun h => convert (h.hash fns) := by
  have hsame : CacheHit.getBlockHashes hashBlockSize r.blockHashes hashBlockSize = r.blockHashes := if_pos rfl
  have hblocks : ((blocks.take nf).drop nc).length = nf - nc := by
    obtain ⟨b, hb, -⟩ := hlive (nf - 1) (by have := hev.new; omega) (by have := hev.new; omega)
    have hlt := (List.getElem?_eq_some_iff.mp hb).1
    rw [List.length_drop, List.length_take]
    omega
  have hall : ∀ b ∈ (blocks.take nf).drop nc, isNull b = false := by
    intro b hb
    obtain ⟨k, hk, rfl⟩ := List.mem_iff_getElem.mp hb
    obtain ⟨b, hb, hnull⟩ := hlive (nc + k) (Nat.le_add_right _ _) (by omega)
    rw [List.getElem_drop, List.getElem_take, (List.getElem?_eq_some_iff.mp hb).2]
    exact hnull
  have hhashes := hev.hashes
  have hle := hev.hashed
  rw [hsame, newHashes_live hall (by rw [hblocks, List.length_drop]; omega), hblocks] at hhashes
  rw [hhashes]
  constructor
  · rw [List.length_map, List.length_take, List.length_drop]
    omega
  · intro k hk
    rw [List.getElem?_map, List.getElem?_take_of_lt hk, List.getElem?_drop, hof.getElem?, Option.map_map]
    rfl

/-- The hash before a block of the event. -/
theorem EventOf.parentOf_eq {k : Nat} (hk : k < nf - nc) {h : HashedBlock (List β)} (hh : hashed[nc + k]? = some h) :
    event.parentOf k = h.parentBlockHash.map convert := by
  have hsame : CacheHit.getBlockHashes hashBlockSize r.blockHashes hashBlockSize = r.blockHashes := if_pos rfl
  rw [hof.linked.getElem? hh]
  unfold BlockStored.parentOf
  by_cases hk0 : k = 0
  · subst hk0
    rw [if_pos rfl, Nat.add_zero]
    have hparent := hev.parent
    rw [hsame] at hparent
    unfold parentHash at hparent
    by_cases hnc : nc = 0
    · rw [if_pos hnc] at hparent ⊢
      exact (Except.ok.inj hparent).symm
    · rw [if_neg hnc] at hparent ⊢
      rw [hof.getElem?] at hparent
      cases hprev : (hashed[nc - 1]?).map (HashedBlock.hash fns) with
      | none =>
        rw [hprev] at hparent
        cases hparent
      | some hash =>
        rw [hprev] at hparent
        exact (Except.ok.inj hparent).symm
  · rw [if_neg hk0, if_neg (by omega), (hev.getElem?_blockHashes hof hlive).2 (k - 1) (by omega),
      show nc + k - 1 = nc + (k - 1) by omega, Option.map_map]
    rfl

end

/-- The tokens of a block of the event. -/
theorem EventOf.tokensOf_eq {k : Nat} (hk : k < nf - nc) {h : HashedBlock (List β)} (hh : hashed[nc + k]? = some h) :
    event.tokensOf k = h.currBlockTokenIds := by
  have hend : (nc + k) * hashBlockSize + hashBlockSize ≤ nf * hashBlockSize := by
    rw [← Nat.succ_mul]
    exact Nat.mul_le_mul_right _ (by omega)
  rw [(hof.blocks _ h hh).tokens]
  unfold BlockStored.tokensOf
  rw [hev.tokens, hev.size, List.drop_drop, ← Nat.add_mul, List.drop_take, List.drop_take, List.take_take]
  congr 1
  omega

/-- The event is as long as its range of blocks. -/
theorem EventOf.length_tokenIds : event.tokenIds.length = (nf - nc) * hashBlockSize := by
  have hnew := hev.new
  have hle : nf ≤ hashed.length := by
    have hle := hev.hashed
    rwa [hof.hashes, List.length_map] at hle
  have hfull := (hof.blocks (nf - 1) _ (List.getElem?_eq_getElem (by omega))).full
  rw [← Nat.succ_mul, show (nf - 1).succ = nf by omega] at hfull
  unfold Request.numTokens at hfull
  rw [hev.tokens, List.length_drop, List.length_take, min_eq_left hfull, Nat.sub_mul]

end

/-- The extra keys of a block of the event. -/
theorem EventOf.keysOf_eq (hbs : 0 < hashBlockSize)
    (hlive : ∀ i, nc ≤ i → i < nf → ∃ b, blocks[i]? = some b ∧ isNull b = false) {k : Nat} (hk : k < nf - nc) :
    event.keysOf k = extraKeys fns r ((nc + k) * hashBlockSize) ((nc + k) * hashBlockSize + hashBlockSize)
      (eventItemKeys r.mmFeatures (decide (k = 0)) ((nc + k) * hashBlockSize)
        ((nc + k) * hashBlockSize + hashBlockSize)) := by
  obtain ⟨keys, hrun, hkeys⟩ := hev.keys
  have hsome := (extraKeysList_live hbs (fun j hj b hb => by
    obtain ⟨b', hb', hnull⟩ := hlive (nc + j) (Nat.le_add_right _ _) (by omega)
    rw [show blocks[nc + j]? = some b from hb] at hb'
    rwa [Option.some.inj hb']) hrun).2 k hk
  unfold BlockStored.keysOf
  rw [hkeys, hsome]
  rfl

end

section

variable (hev : EventOf fns convert isNull hashBlockSize r blocks nc nf blockSize event)
include hev

/-- An event of cached blocks describes them when it is right. -/
theorem EventOf.describes (hbs : 0 < hashBlockSize) (hof : HashesOf fns hashBlockSize r hashed)
    (hok : EventOk isNull hashBlockSize r hashed blocks nc nf blockSize) :
    Describes fns convert hashed (blockSize / hashBlockSize) (newlyCached isNull blocks nc nf) event := by
  rcases hok with hnil | ⟨rfl, hlive, hitems⟩
  · -- nothing is cached
    have hnull := newlyCached_eq_nil hnil
    have hnone : event.blockHashes = [] := by
      rw [hev.hashes]
      refine newHashes_null (fun b hb => ?_) _
      obtain ⟨k, hk, rfl⟩ := List.mem_iff_getElem.mp hb
      rw [List.length_drop, List.length_take] at hk
      rw [List.getElem_drop, List.getElem_take]
      exact hnull (nc + k) (Nat.le_add_right _ _) (by omega) _ (List.getElem?_eq_getElem _)
    rw [hnil]
    exact ⟨by rw [hnone]; rfl, fun hne => absurd rfl hne, fun k i hk => by cases hk⟩
  · rw [newlyCached_live hlive, Nat.div_self hbs]
    obtain ⟨hlength, hget⟩ := hev.getElem?_blockHashes hof hlive
    constructor
    case hashes => rw [hlength, List.length_range']
    case tokens =>
      intro _
      rw [hev.length_tokenIds hof, List.length_range', hev.size]
    case blocks =>
      intro k i hki
      obtain ⟨hk, rfl⟩ := List.getElem?_eq_some_iff.mp hki
      rw [List.length_range'] at hk
      rw [List.getElem_range', Nat.one_mul]
      have hle := hev.hashed
      rw [hof.hashes, List.length_map] at hle
      obtain ⟨h, hh⟩ : ∃ h, hashed[nc + k]? = some h := ⟨_, List.getElem?_eq_getElem (by omega)⟩
      have hat := hof.blocks _ h hh
      refine ⟨h, ?_, ?_, hev.parentOf_eq hof hlive hk hh, hev.tokensOf_eq hof hk hh, ?_⟩
      · rw [List.range_one, List.map_singleton, Nat.mul_one, Nat.add_zero, hh]
      · rw [hget k hk, hh]
        rfl
      · have hsame := hitems (nc + k) h (Nat.le_add_right _ _) (by omega) hh
        rw [show (decide (nc + k = nc)) = decide (k = 0) from decide_eq_decide.mpr (by omega)] at hsame
        rw [hev.keysOf_eq hbs hlive hk, hat.keys, hsame]

/-- An event that describes its blocks is right. -/
theorem EventOf.ok (hbs : 0 < hashBlockSize) (hof : HashesOf fns hashBlockSize r hashed)
    (hdescribes : Describes fns convert hashed (blockSize / hashBlockSize) (newlyCached isNull blocks nc nf) event) :
    EventOk isNull hashBlockSize r hashed blocks nc nf blockSize := by
  by_cases hnil : newlyCached isNull blocks nc nf = []
  · exact .inl hnil
  · right
    -- the first cached block is one hashed block
    have hscale : blockSize / hashBlockSize = 1 := by
      obtain ⟨i, cached, hcached⟩ := List.exists_cons_of_ne_nil hnil
      obtain ⟨h, hone, -⟩ := hdescribes.blocks 0 i (by rw [hcached]; rfl)
      have hlength := congrArg List.length hone
      rwa [List.length_map, List.length_range] at hlength
    have hsize : blockSize = hashBlockSize := by
      rcases hev.divides with heq | hmod
      · exact heq
      · have hdiv := Nat.div_add_mod blockSize hashBlockSize
        rw [hscale] at hdiv
        omega
    subst hsize
    have hlength : (newlyCached isNull blocks nc nf).length = nf - nc := by
      have htokens := hdescribes.tokens hnil
      rw [hev.length_tokenIds hof, hev.size] at htokens
      exact (Nat.eq_of_mul_eq_mul_right hbs htokens).symm
    have hlive := live_of_length hlength
    refine ⟨rfl, hlive, fun i h hnc hnf hh => ?_⟩
    obtain ⟨k, rfl⟩ := Nat.exists_eq_add_of_le hnc
    have hk : k < nf - nc := by omega
    have hcached : (newlyCached isNull blocks nc nf)[k]? = some (nc + k) := by
      rw [newlyCached_live hlive, List.getElem?_range' hk, Nat.one_mul]
    obtain ⟨h', hone, -, -, -, hkeys⟩ := hdescribes.blocks k _ hcached
    rw [hscale, List.range_one, List.map_singleton, Nat.mul_one, Nat.add_zero, hh] at hone
    obtain rfl := Option.some.inj (List.cons.inj hone).1
    rw [hev.keysOf_eq hbs hlive hk, (hof.blocks _ h hh).keys] at hkeys
    rw [show (decide (nc + k = nc)) = decide (k = 0) from decide_eq_decide.mpr (by omega)]
    exact extraKeys_inj hkeys

end

end Event

end Describes

/-! ## Every event of a request -/

section Runs

variable {β γ : Type} [DecidableEq β] {fns : HashFunctions (List β)} {convert : List β → γ}
variable {hashBlockSize : Nat} {r : Request (List β)} {hashed : List (HashedBlock (List β))}
variable {p p' : BlockPool (List β × Nat)} {blocks : List Nat}
variable {numCachedBlocks numFullBlocks blockSize kvCacheGroupId : Nat} {event : BlockStored β γ}

/-- In every history of a request whose session updates delete no hashed token, the event of a call describes the
blocks that the call caches exactly when it is right. -/
theorem stored_event_describes_iff (hpos : 0 < hashBlockSize) (hhashed : HashedBy fns hashBlockSize r hashed)
    (hrun : p.cacheFullBlocksWithEvent fns convert hashBlockSize r blocks numCachedBlocks numFullBlocks blockSize
      kvCacheGroupId = .ok (p', some event)) :
    Describes fns convert hashed (blockSize / hashBlockSize)
        (newlyCached (fun b => (p.blocks b).isNull) blocks numCachedBlocks numFullBlocks) event ↔
      EventOk (fun b => (p.blocks b).isNull) hashBlockSize r hashed blocks numCachedBlocks numFullBlocks blockSize := by
  have hev := eventOf_of_run hrun
  have hof := hhashed.hashesOf hpos
  exact ⟨hev.ok hpos hof, hev.describes hpos hof⟩

/-- A digest of the examples: the tokens up to the block. -/
def tokenHash : HashFunctions (List Nat) where
  noneHash := []
  hashFunction := fun (parent, tokenIds, _) => parent ++ tokenIds
  embedsHash := List.flatten

/-- Six tokens, the last of which begins an image that goes on in the output. -/
def decodedImage : Request (List Nat) :=
  { requestId := 0, promptTokenIds := some [1, 2, 3, 4, 5, 6], numPromptTokens := 6,
    allTokenIds := [1, 2, 3, 4, 5, 6], mmFeatures := [⟨"b", ⟨5, 4, none⟩⟩] }

/-- The first block is stored alone, and when the output has filled two more, these are: the event of the second call
describes both, which share the image. -/
theorem stored_event_describes_later :
    let prompt := initBlockHashes tokenHash 4 decodedImage
    let output := HashOp.appendOutputTokenIds [7, 8, 9, 10, 11, 12]
    ∃ (p p₁ p₂ : BlockPool (List Nat × Nat)) (event₁ event₂ : BlockStored Nat (List Nat)) (r : Request (List Nat)),
      BlockPool.init 4 true = .ok p ∧
      p.cacheFullBlocksWithEvent tokenHash id 4 prompt [1, 2, 3] 0 1 4 0 = .ok (p₁, some event₁) ∧
      hashStep tokenHash 4 prompt output = .ok r ∧
      p₁.cacheFullBlocksWithEvent tokenHash id 4 r [1, 2, 3] 1 3 4 0 = .ok (p₂, some event₂) ∧
      event₂.extraKeys = some [some [.str "b"], some [.str "b"]] ∧
      Describes tokenHash id (newlyHashed tokenHash 4 decodedImage ++ hashedByOp tokenHash 4 prompt output) 1
        (newlyCached (fun b => (p₁.blocks b).isNull) [1, 2, 3] 1 3) event₂ := by
  intro prompt output
  obtain ⟨p, p₁, p₂, event₁, event₂, r, hp, hfirst, hstep, hrun, hkeys, hlive⟩ :
      ∃ (p p₁ p₂ : BlockPool (List Nat × Nat)) (event₁ event₂ : BlockStored Nat (List Nat)) (r : Request (List Nat)),
        BlockPool.init 4 true = .ok p ∧
        p.cacheFullBlocksWithEvent tokenHash id 4 prompt [1, 2, 3] 0 1 4 0 = .ok (p₁, some event₁) ∧
        hashStep tokenHash 4 prompt output = .ok r ∧
        p₁.cacheFullBlocksWithEvent tokenHash id 4 r [1, 2, 3] 1 3 4 0 = .ok (p₂, some event₂) ∧
        event₂.extraKeys = some [some [.str "b"], some [.str "b"]] ∧
        ((p₁.blocks 2).isNull = false ∧ (p₁.blocks 3).isNull = false) :=
    ⟨_, _, _, _, _, _, rfl, rfl, rfl, rfl, rfl, rfl, rfl⟩
  refine ⟨p, p₁, p₂, event₁, event₂, r, hp, hfirst, hstep, hrun, hkeys, ?_⟩
  have hhashed : HashedBy tokenHash 4 r _ :=
    .step (.init decodedImage) (show KeepsHashedTokens 4 _ output from trivial) hstep
  refine (stored_event_describes_iff (Nat.succ_pos 3) hhashed hrun).mpr (.inr ⟨rfl, ?_, ?_⟩)
  · intro i hlow hhigh
    obtain rfl | rfl : i = 1 ∨ i = 2 := by omega
    · exact ⟨2, rfl, hlive.1⟩
    · exact ⟨3, rfl, hlive.2⟩
  · intro i h hlow hhigh hh
    cases hstep
    obtain rfl | rfl : i = 1 ∨ i = 2 := by omega
    · cases hh
      decide
    · cases hh
      decide

/-- Eight tokens with an image over the first block. -/
def imageRequest : Request (List Nat) :=
  { requestId := 0, promptTokenIds := some [1, 2, 3, 4, 5, 6, 7, 8], numPromptTokens := 8,
    allTokenIds := [1, 2, 3, 4, 5, 6, 7, 8], mmFeatures := [⟨"a", ⟨0, 4, none⟩⟩] }

/-- The second block of the request is stored by a later call: the event names the image, the hash does not. -/
theorem stored_event_not_always : ∃ (p p₁ p₂ : BlockPool (List Nat × Nat)) (event₁ event₂ : BlockStored Nat (List Nat)),
    BlockPool.init 3 true = .ok p ∧
      p.cacheFullBlocksWithEvent tokenHash id 4 (initBlockHashes tokenHash 4 imageRequest) [1, 2] 0 1 4 0 =
        .ok (p₁, some event₁) ∧
      p₁.cacheFullBlocksWithEvent tokenHash id 4 (initBlockHashes tokenHash 4 imageRequest) [1, 2] 1 2 4 0 =
        .ok (p₂, some event₂) ∧ ¬ Describes tokenHash id (newlyHashed tokenHash 4 imageRequest) 1
        (newlyCached (fun b => (p₁.blocks b).isNull) [1, 2] 1 2) event₂ := by
  refine ⟨_, _, _, _, _, rfl, rfl, rfl, fun h => ?_⟩
  obtain ⟨b, hb, -, -, -, hkeys⟩ := h.blocks 0 1 rfl
  obtain rfl := Option.some.inj (List.cons.inj hb).1
  cases hkeys

end Runs

end Yuan.Core
