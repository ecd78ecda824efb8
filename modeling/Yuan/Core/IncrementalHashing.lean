import Yuan.Core.BlockHash

/-!
# Incremental hashing against hashing from scratch

`chain` hashes blocks one behind the other, giving each block the items that a walk over the items
from the first block would find there. Hashing from scratch is `chain` from position 0. Hashing that
continues in the middle is `chain` from there if its item index is right for the blocks it hashes,
which is `IndexOk`; one block keeps `IndexOk` for the next (`genMmExtraHashKeys_step`).
-/

namespace Yuan.Core

variable {a b : Nat}

/-! ## The item index of a walk from the first block -/

/-- A walk that has reached position `a` is done with the item. -/
def passed (a : Nat) (f : MultiModalFeatureSpec) : Bool := a > f.offset ∧ a ≥ f.stop

/-- The index of the first item that a walk from the first block looks at in a block at `a`. -/
def walkIndex (fs : List MultiModalFeatureSpec) (a : Nat) : Nat := (fs.takeWhile (passed a)).length

/-- The identifiers of the items in a block, for a walk from the first block. -/
def itemKeys (fs : List MultiModalFeatureSpec) (a b : Nat) : List String :=
  match fs.getLast? with
  | none => []
  | some last =>
    if last.stop < a then [] else (mmLoop a b (fs.drop (walkIndex fs a)) (walkIndex fs a)).1

theorem passed_mono (hab : a ≤ b) {f : MultiModalFeatureSpec} (h : passed a f = true) : passed b f = true := by
  simp only [passed, decide_eq_true_eq] at h ⊢
  omega

@[simp] theorem walkIndex_zero (fs : List MultiModalFeatureSpec) : walkIndex fs 0 = 0 := by
  cases fs with
  | nil => rfl
  | cons f fs => simp [walkIndex, passed]

/-- The walk goes on where it stands. -/
theorem walkIndex_eq_add (hab : a ≤ b) (fs : List MultiModalFeatureSpec) :
    walkIndex fs b = walkIndex fs a + ((fs.drop (walkIndex fs a)).takeWhile (passed b)).length := by
  induction fs with
  | nil => rfl
  | cons f fs ih =>
    by_cases hf : passed a f = true
    · have hidx : walkIndex (f :: fs) a = walkIndex fs a + 1 := by
        simp [walkIndex, hf]
      have hidx' : walkIndex (f :: fs) b = walkIndex fs b + 1 := by
        simp [walkIndex, passed_mono hab hf]
      rw [hidx, hidx', List.drop_succ_cons]
      omega
    · have hidx : walkIndex (f :: fs) a = 0 := by
        simp [walkIndex, hf]
      rw [hidx, List.drop_zero, Nat.zero_add]
      rfl

/-- The loop ends at the first item that the end of the block has not passed. -/
theorem mmLoop_index (hab : a ≤ b) (l : List MultiModalFeatureSpec) (i : Nat) :
    (mmLoop a b l i).2 = i + (l.takeWhile (passed b)).length := by
  induction l generalizing i with
  | nil => rfl
  | cons f l ih =>
    unfold mmLoop
    by_cases hoff : b > f.offset
    · by_cases hpast : a > f.stop
      · have hp : passed b f = true := by simp only [passed, decide_eq_true_eq]; omega
        simp only [if_pos hoff, if_pos hpast, ih, List.takeWhile_cons, hp, if_true, List.length_cons]
        omega
      · by_cases hend : b ≥ f.stop
        · have hp : passed b f = true := by simp only [passed, decide_eq_true_eq]; omega
          simp only [if_pos hoff, if_neg hpast, if_pos hend, ih, List.takeWhile_cons, hp, if_true,
            List.length_cons]
          omega
        · have hp : passed b f = false := by simp only [passed, decide_eq_false_iff_not]; omega
          simp [hoff, hpast, hend, hp]
    · have hp : passed b f = false := by simp only [passed, decide_eq_false_iff_not]; omega
      simp [hoff, hp]

/-- The items found do not depend on how they are counted. -/
theorem mmLoop_fst (a b : Nat) (l : List MultiModalFeatureSpec) (i j : Nat) :
    (mmLoop a b l i).1 = (mmLoop a b l j).1 := by
  induction l generalizing i j with
  | nil => rfl
  | cons f l ih =>
    simp only [mmLoop]
    split <;> [skip; rfl]
    split <;> [exact ih (i + 1) (j + 1); skip]
    split <;> [simp [ih (i + 1) (j + 1)]; rfl]

theorem mmLoop_of_le_offset {i : Nat} {l : List MultiModalFeatureSpec} {f : MultiModalFeatureSpec} (h : l[i]? = some f)
    (hb : b ≤ f.offset) (j : Nat) : mmLoop a b (l.drop i) j = ([], j) := by
  obtain ⟨hi, rfl⟩ := List.getElem?_eq_some_iff.mp h
  rw [List.drop_eq_getElem_cons hi]
  simp [mmLoop, Nat.not_lt.mpr hb]

/-! ## When an index is right -/

/-- `start_mm_idx` as an index from the front. -/
def normIndex (fs : List MultiModalFeatureSpec) (i : Int) : Nat :=
  if i < 0 then (fs.length + i).toNat else i.toNat

/-- From position `a` up to `e`, starting with item `j` finds the items of a walk from the first
block: there is nothing to find any more, or `j` is where the walk stands, or neither of the two items
is reached before `e`. -/
def IndexOk (fs : List MultiModalFeatureSpec) (a e j : Nat) : Prop :=
  fs = [] ∨ (∃ last, fs.getLast? = some last ∧ last.stop < a) ∨ j = walkIndex fs a ∨
    ∃ f g, fs[j]? = some f ∧ fs[walkIndex fs a]? = some g ∧ e ≤ f.offset ∧ e ≤ g.offset

theorem indexOk_zero (fs : List MultiModalFeatureSpec) (e : Nat) : IndexOk fs 0 e 0 :=
  Or.inr (Or.inr (Or.inl (walkIndex_zero fs).symm))

theorem genMm_eq {fs : List MultiModalFeatureSpec} {last : MultiModalFeatureSpec} (hlast : fs.getLast? = some last)
    (ha : ¬ last.stop < a) (i : Int) :
    genMmExtraHashKeys fs a b i = ((mmLoop a b (fs.drop (normIndex fs i)) (normIndex fs i)).1,
      ((mmLoop a b (fs.drop (normIndex fs i)) (normIndex fs i)).2 : Int)) := by
  unfold genMmExtraHashKeys normIndex
  simp only [hlast, if_neg ha]
  by_cases hi : i < 0 <;> simp [hi]

/-- With a right index, a block gets the items of a walk from the first block, and the index stays
right for the next block. -/
theorem genMmExtraHashKeys_step {fs : List MultiModalFeatureSpec} {e : Nat} {i : Int}
    (h : IndexOk fs a e (normIndex fs i)) (hab : a ≤ b) (hbe : b ≤ e) :
    (genMmExtraHashKeys fs a b i).1 = itemKeys fs a b ∧
      IndexOk fs b e (normIndex fs (genMmExtraHashKeys fs a b i).2) := by
  cases hlast : fs.getLast? with
  | none =>
    obtain rfl := List.getLast?_eq_none_iff.mp hlast
    exact ⟨rfl, Or.inl rfl⟩
  | some last =>
    by_cases ha : last.stop < a
    · -- the walk is over
      have hkeys : itemKeys fs a b = [] := by simp [itemKeys, hlast, ha]
      have hgen : genMmExtraHashKeys fs a b i = ([], i) := by
        simp [genMmExtraHashKeys, hlast, ha]
      rw [hgen, hkeys]
      exact ⟨rfl, Or.inr (Or.inl ⟨last, hlast, by omega⟩)⟩
    · have hkeys : itemKeys fs a b =
          (mmLoop a b (fs.drop (walkIndex fs a)) (walkIndex fs a)).1 := by
        simp [itemKeys, hlast, ha]
      have hnorm : ∀ n : Nat, normIndex fs (n : Int) = n := by
        simp [normIndex]
      rw [genMm_eq hlast ha, hkeys, hnorm]
      rcases h with rfl | ⟨last', hlast', ha'⟩ | hidx | ⟨f, g, hf, hg, hef, heg⟩
      · simp at hlast
      · rw [hlast, Option.some.injEq] at hlast'
        subst hlast'
        exact absurd ha' ha
      · rw [hidx]
        refine ⟨rfl, Or.inr (Or.inr (Or.inl ?_))⟩
        rw [mmLoop_index hab, ← walkIndex_eq_add hab]
      · rw [mmLoop_of_le_offset hf (hbe.trans hef), mmLoop_of_le_offset hg (hbe.trans heg)]
        refine ⟨rfl, Or.inr (Or.inr (Or.inr ⟨f, g, hf, ?_, hef, heg⟩))⟩
        -- the walk stands still, in front of `g`
        have hstill : walkIndex fs b = walkIndex fs a := by
          obtain ⟨hlt, hget⟩ := List.getElem?_eq_some_iff.mp hg
          have hp : passed b g = false := by simp only [passed, decide_eq_false_iff_not]; omega
          rw [walkIndex_eq_add hab, List.drop_eq_getElem_cons hlt, hget,
            List.takeWhile_cons_of_neg (by simp [hp])]
          rfl
        rw [hstill]
        exact hg

/-! ## The chain of block hashes -/

section Chain

variable {β : Type} (fns : HashFunctions β) (blockSize : Nat)

/-- The hashes of `k` blocks from position `a` on, behind a block with hash `prev`. -/
def chain (r : Request β) : Nat → Nat → Option β → List β
  | 0, _, _ => []
  | k + 1, a, prev =>
    let blockTokens := (r.allTokenIds.take (a + blockSize)).drop a
    let blockHash := hashBlockTokens fns prev blockTokens
      (extraKeys fns r a (a + blockSize) (itemKeys r.mmFeatures a (a + blockSize)))
    blockHash :: chain r k (a + blockSize) (some blockHash)

@[simp] theorem length_chain (r : Request β) (k a : Nat) (prev : Option β) :
    (chain fns blockSize r k a prev).length = k := by
  induction k generalizing a prev with
  | zero => rfl
  | succ k ih => simp [chain, ih]

/-- A chain of `k + m` blocks is one of `k` blocks and one of `m` blocks behind it. -/
theorem chain_add (r : Request β) (k m a : Nat) (prev : Option β) :
    chain fns blockSize r (k + m) a prev = chain fns blockSize r k a prev ++ chain fns blockSize r m (a + k * blockSize)
        ((chain fns blockSize r k a prev).getLast?.or prev) := by
  induction k generalizing a prev with
  | zero => simp [chain]
  | succ k ih =>
    rw [show k + 1 + m = (k + m) + 1 by omega]
    simp only [chain, ih, List.cons_append, List.cons.injEq, true_and]
    congr 2
    · ring
    · rw [List.getLast?_cons]
      cases hlast : (chain fns blockSize r k (a + blockSize) (some _)).getLast? with
      | none => rfl
      | some h => rfl

/-- A chain reads the tokens and the extra keys of its blocks. -/
theorem chain_congr {r r' : Request β} {k a : Nat} (prev : Option β)
    (h : ∀ i < k, (r.allTokenIds.take (a + i * blockSize + blockSize)).drop (a + i * blockSize) =
        (r'.allTokenIds.take (a + i * blockSize + blockSize)).drop (a + i * blockSize) ∧
      extraKeys fns r (a + i * blockSize) (a + i * blockSize + blockSize)
          (itemKeys r.mmFeatures (a + i * blockSize) (a + i * blockSize + blockSize)) =
        extraKeys fns r' (a + i * blockSize) (a + i * blockSize + blockSize)
          (itemKeys r'.mmFeatures (a + i * blockSize) (a + i * blockSize + blockSize))) :
    chain fns blockSize r k a prev = chain fns blockSize r' k a prev := by
  induction k generalizing a prev with
  | zero => rfl
  | succ k ih =>
    obtain ⟨htokens, hkeys⟩ := h 0 (by omega)
    simp only [Nat.zero_mul, Nat.add_zero] at htokens hkeys
    simp only [chain, htokens, hkeys, List.cons.injEq, true_and]
    apply ih
    intro i hi
    have := h (i + 1) (by omega)
    rwa [show a + (i + 1) * blockSize = a + blockSize + i * blockSize by ring] at this

variable {blockSize}

/-- With a right index the loop of the hasher computes a chain. -/
theorem hashLoop_eq_chain (hbs : 0 < blockSize) {r : Request β} {fuel a : Nat} {i : Int}
    (prev : Option β) (hfuel : (r.numTokens - a) / blockSize ≤ fuel)
    (h : IndexOk r.mmFeatures a (a + (r.numTokens - a) / blockSize * blockSize) (normIndex r.mmFeatures i)) :
    hashLoop fns blockSize r fuel a i prev = chain fns blockSize r ((r.numTokens - a) / blockSize) a prev := by
  induction fuel generalizing a i prev with
  | zero =>
    rw [Nat.le_zero.mp hfuel]
    rfl
  | succ fuel ih =>
    by_cases hfull : a + blockSize > r.numTokens
    · rw [Nat.div_eq_of_lt (by omega : r.numTokens - a < blockSize)]
      simp [hashLoop, hfull, chain]
    · -- one block, and the rest
      have hcount : (r.numTokens - a) / blockSize =
          (r.numTokens - (a + blockSize)) / blockSize + 1 := by
        rw [show r.numTokens - a = (r.numTokens - (a + blockSize)) + blockSize by omega,
          Nat.add_div_right _ hbs]
      have hend : a + (r.numTokens - a) / blockSize * blockSize =
          a + blockSize + (r.numTokens - (a + blockSize)) / blockSize * blockSize := by
        rw [hcount]; ring
      rw [hend] at h
      obtain ⟨hkeys, hnext⟩ := genMmExtraHashKeys_step h (Nat.le_add_right a blockSize)
        (Nat.le_add_right _ _)
      rw [hcount]
      simp only [hashLoop, if_neg hfull, generateBlockHashExtraKeys, chain, hkeys]
      rw [ih _ (by omega) hnext]

/-- The hasher extends a chain if its index is right for the blocks it hashes. -/
theorem requestBlockHasher_eq_chain (hbs : 0 < blockSize) {r : Request β}
    (h : r.numTokens / blockSize ≤ r.blockHashes.length ∨ r.blockHashes = [] ∨
      IndexOk r.mmFeatures (r.blockHashes.length * blockSize)
        (r.numTokens / blockSize * blockSize) (normIndex r.mmFeatures (-1))) :
    requestBlockHasher fns blockSize r = chain fns blockSize r
      (r.numTokens / blockSize - r.blockHashes.length) (r.blockHashes.length * blockSize) r.blockHashes.getLast? := by
  have hcount : (r.numTokens - r.blockHashes.length * blockSize) / blockSize =
      r.numTokens / blockSize - r.blockHashes.length := by
    rw [Nat.mul_comm]
    exact Nat.sub_mul_div _ _ _
  unfold requestBlockHasher
  by_cases hnone : r.blockHashes.length * blockSize + blockSize > r.numTokens
  · have hzero : r.numTokens / blockSize - r.blockHashes.length = 0 := by
      rw [← hcount]
      exact Nat.div_eq_of_lt (by omega)
    simp [hnone, hzero, chain]
  · have hlt : r.blockHashes.length < r.numTokens / blockSize := by
      rw [Nat.lt_iff_add_one_le, Nat.le_div_iff_mul_le hbs]
      linarith
    simp only [if_neg hnone]
    rw [hashLoop_eq_chain fns hbs, hcount]
    · exact (Nat.div_le_self _ _).trans (Nat.sub_le _ _)
    · rw [hcount, ← Nat.add_mul, Nat.add_sub_cancel' hlt.le]
      rcases h with hle | hnil | hidx
      · omega
      · simp only [hnil, List.length_nil, Nat.zero_mul]
        exact indexOk_zero _ _
      · by_cases hstart : r.blockHashes.length * blockSize > 0
        · rw [if_pos hstart]
          exact hidx
        · rw [if_neg hstart, Nat.eq_zero_of_not_pos hstart]
          exact indexOk_zero _ _

/-- Hashing from scratch is the chain from the first block. -/
theorem scratchBlockHashes_eq_chain (hbs : 0 < blockSize) (r : Request β) :
    scratchBlockHashes fns blockSize r = chain fns blockSize r (r.numTokens / blockSize) 0 none := by
  have h := requestBlockHasher_eq_chain fns hbs (r := { r with blockHashes := [] })
    (Or.inr (Or.inl rfl))
  simp only [List.length_nil, Nat.zero_mul] at h
  rw [scratchBlockHashes, h]
  exact chain_congr fns blockSize none fun i _ => ⟨rfl, rfl⟩

end Chain

/-! ## Histories of a request -/

section History

variable {β : Type} (fns : HashFunctions β) (blockSize : Nat)

/-- What happens to the tokens of a request: output is appended, a session continues with new input,
and in between the scheduler advances the number of computed tokens. -/
inductive HashOp where
  | appendOutputTokenIds (tokenIds : List Nat)
  | updateRequestAsSession (update : StreamingUpdate)
  | setNumComputedTokens (numComputedTokens : Int)

/-- One event. -/
def hashStep (r : Request β) : HashOp → Except PyError (Request β)
  | .appendOutputTokenIds tokenIds => .ok (appendOutputTokenIds fns blockSize r tokenIds)
  | .updateRequestAsSession update => updateRequestAsSession fns blockSize r update
  | .setNumComputedTokens numComputedTokens => .ok { r with numComputedTokens }

/-- The block hashes are those of the current tokens and items. -/
def HashesCurrent (r : Request β) : Prop :=
  r.blockHashes.length = r.numTokens / blockSize ∧
    r.blockHashes = scratchBlockHashes fns blockSize r

/-- The last item is the right one to continue with: no new block is full, nothing was hashed before,
or `IndexOk` holds of it for the new full blocks. -/
def LastItemOk (r : Request β) : Prop :=
  r.numTokens / blockSize ≤ r.blockHashes.length ∨ r.blockHashes = [] ∨
    IndexOk r.mmFeatures (r.blockHashes.length * blockSize) (r.numTokens / blockSize * blockSize)
      (normIndex r.mmFeatures (-1))

/-- A session keeps its hashed blocks: their tokens are not deleted, new items start behind them, and
the item that was last still ends last. -/
def HashedBlocksKept (r : Request β) (update : StreamingUpdate) : Prop :=
  r.blockHashes.length * blockSize ≤ (pyTake r.allTokenIds r.numComputedTokens).length ∧
    (∀ f ∈ (update.mmFeatures.getD []).map
      (shiftFeature (pyTake r.allTokenIds r.numComputedTokens).length),
      r.blockHashes.length * blockSize ≤ f.offset) ∧
    (update.mmFeatures.getD [] = [] ∨
      ∀ last, r.mmFeatures.getLast? = some last → ∀ f ∈ r.mmFeatures, f.stop ≤ last.stop)

/-- When an event leaves the block hashes current. -/
def HashOpOk (r : Request β) : HashOp → Prop
  | .appendOutputTokenIds tokenIds =>
    LastItemOk blockSize { r with allTokenIds := r.allTokenIds ++ tokenIds }
  | .updateRequestAsSession update =>
    HashedBlocksKept blockSize r update ∧ LastItemOk blockSize (sessionInput r update)
  | .setNumComputedTokens _ => True

/-- The requests a history leads to, in which every event meets its condition. -/
inductive HashHistory : Request β → Prop where
  | init (r : Request β) : HashHistory (initBlockHashes fns blockSize r)
  | step {r r' : Request β} {op : HashOp} (h : HashHistory r) (hop : HashOpOk blockSize r op)
      (hstep : hashStep fns blockSize r op = .ok r') : HashHistory r'

variable {fns blockSize} {r : Request β}

theorem hashesCurrent_iff (hbs : 0 < blockSize) :
    HashesCurrent fns blockSize r ↔ r.blockHashes = chain fns blockSize r (r.numTokens / blockSize) 0 none := by
  rw [HashesCurrent, scratchBlockHashes_eq_chain fns hbs]
  constructor
  · exact And.right
  · intro h
    refine ⟨?_, h⟩
    rw [h, length_chain]

/-- Hashing the new full blocks of a request whose hashed blocks are current. -/
theorem hashesCurrent_updateBlockHashes (hbs : 0 < blockSize)
    (hold : r.blockHashes = chain fns blockSize r r.blockHashes.length 0 none)
    (hlen : r.blockHashes.length ≤ r.numTokens / blockSize) (hlast : LastItemOk blockSize r) :
    HashesCurrent fns blockSize (updateBlockHashes fns blockSize r) := by
  have hnew := requestBlockHasher_eq_chain fns hbs hlast
  have hall : chain fns blockSize r (r.numTokens / blockSize) 0 none =
      r.blockHashes ++ chain fns blockSize r (r.numTokens / blockSize - r.blockHashes.length)
        (r.blockHashes.length * blockSize) r.blockHashes.getLast? := by
    conv_lhs => rw [← Nat.add_sub_cancel' hlen, chain_add]
    rw [← hold, Nat.zero_add, Option.or_none]
  rw [hashesCurrent_iff hbs]
  show r.blockHashes ++ requestBlockHasher fns blockSize r = _
  rw [hnew, ← hall]
  exact chain_congr fns blockSize none fun i _ => ⟨rfl, rfl⟩

/-- The blocks of a prefix of the tokens. -/
theorem block_take {tokens tokens' : List Nat} {n : Nat} (h : tokens.take n = tokens'.take n)
    {a b : Nat} (hb : b ≤ n) : (tokens.take b).drop a = (tokens'.take b).drop a := by
  have htake : ∀ l : List Nat, l.take b = (l.take n).take b := fun l => by
    rw [List.take_take, min_eq_left hb]
  rw [htake tokens, htake tokens', h]

/-- New items behind a block do not change what a walk from the first block finds in it. -/
theorem itemKeys_append {fs new : List MultiModalFeatureSpec} {a b : Nat} (hab : a < b) (hnew : ∀ f ∈ new, b ≤ f.offset)
    (hlast : ∀ last, fs.getLast? = some last → ∀ f ∈ fs, f.stop ≤ last.stop) :
    itemKeys (fs ++ new) a b = itemKeys fs a b := by
  have hloop : ∀ (l : List MultiModalFeatureSpec) (i : Nat),
      (mmLoop a b (l ++ new) i).1 = (mmLoop a b l i).1 := by
    intro l
    induction l with
    | nil =>
      intro i
      cases new with
      | nil => rfl
      | cons f new => simp [mmLoop, Nat.not_lt.mpr (hnew f List.mem_cons_self)]
    | cons f l ih =>
      intro i
      simp only [List.cons_append, mmLoop]
      split <;> [skip; rfl]
      split <;> [exact ih (i + 1); skip]
      split <;> [simp [ih (i + 1)]; rfl]
  cases new with
  | nil => simp
  | cons g new =>
    have hstop : ∀ f ∈ g :: new, ¬ f.stop < a := by
      intro f hf
      have h₁ := hnew f hf
      have h₂ : f.offset ≤ f.stop := Nat.le_add_right _ _
      omega
    obtain ⟨last, hlast'⟩ : ∃ last, (fs ++ g :: new).getLast? = some last :=
      ⟨_, List.getLast?_eq_some_getLast (by simp)⟩
    have hmem : last ∈ g :: new := by
      rw [List.getLast?_append_of_ne_nil _ (by simp)] at hlast'
      exact List.mem_of_getLast? hlast'
    have hindex : ∀ l : List MultiModalFeatureSpec,
        ((l ++ g :: new).drop (walkIndex (l ++ g :: new) a)) =
          l.drop (walkIndex l a) ++ g :: new := by
      intro l
      induction l with
      | nil =>
        have hg : passed a g = false := by
          have := hnew g List.mem_cons_self
          simp only [passed, decide_eq_false_iff_not]
          omega
        simp [walkIndex, hg]
      | cons f l ih =>
        by_cases hf : passed a f = true
        · simpa [walkIndex, hf] using ih
        · simp [walkIndex, hf]
    have hkeys : itemKeys (fs ++ g :: new) a b = (mmLoop a b (fs.drop (walkIndex fs a)) 0).1 := by
      simp only [itemKeys, hlast', if_neg (hstop last hmem), hindex, hloop]
      exact mmLoop_fst a b _ _ _
    rw [hkeys, itemKeys]
    cases hold : fs.getLast? with
    | none =>
      obtain rfl := List.getLast?_eq_none_iff.mp hold
      rfl
    | some oldLast =>
      by_cases hover : oldLast.stop < a
      · -- all old items end before the block
        have hall : walkIndex fs a = fs.length := by
          rw [walkIndex, List.takeWhile_eq_self_iff.mpr]
          intro f hf
          have h₁ := hlast oldLast hold f hf
          have h₂ : f.offset ≤ f.stop := Nat.le_add_right _ _
          simp only [passed, decide_eq_true_eq]
          omega
        simp [hall, mmLoop]
      · simp only [if_neg hover]
        exact mmLoop_fst a b _ _ _

theorem hashesCurrent_append (hbs : 0 < blockSize) (h : HashesCurrent fns blockSize r) {tokenIds : List Nat}
    (hok : LastItemOk blockSize { r with allTokenIds := r.allTokenIds ++ tokenIds }) :
    HashesCurrent fns blockSize (appendOutputTokenIds fns blockSize r tokenIds) := by
  have hcur := (hashesCurrent_iff hbs).mp h
  have hlen := h.1
  have hle : r.numTokens ≤ (r.allTokenIds ++ tokenIds).length := by
    simp [Request.numTokens]
  apply hashesCurrent_updateBlockHashes hbs
  · show r.blockHashes = _
    conv_lhs => rw [hcur]
    rw [hlen]
    refine chain_congr fns blockSize none fun i hi => ⟨?_, rfl⟩
    -- the old full blocks lie in the old tokens
    apply block_take (n := r.numTokens)
    · simp [Request.numTokens]
    · have := Nat.div_mul_le_self r.numTokens blockSize
      have := Nat.mul_le_mul_right blockSize (show i + 1 ≤ r.numTokens / blockSize by omega)
      linarith
  · show r.blockHashes.length ≤ (r.allTokenIds ++ tokenIds).length / blockSize
    rw [hlen]
    exact Nat.div_le_div_right hle
  · exact hok

theorem hashesCurrent_session (hbs : 0 < blockSize) {r' : Request β} (h : HashesCurrent fns blockSize r)
    {update : StreamingUpdate} (hkept : HashedBlocksKept blockSize r update)
    (hok : LastItemOk blockSize (sessionInput r update))
    (hstep : updateRequestAsSession fns blockSize r update = .ok r') : HashesCurrent fns blockSize r' := by
  obtain ⟨htokens, hitems, hlast⟩ := hkept
  have hcur := (hashesCurrent_iff hbs).mp h
  have hlen := h.1
  have hcurrent : HashesCurrent fns blockSize (updateBlockHashes fns blockSize (sessionInput r update)) := by
    apply hashesCurrent_updateBlockHashes hbs
    · show r.blockHashes = _
      conv_lhs => rw [hcur]
      rw [← hlen]
      refine chain_congr fns blockSize none fun i hi => ⟨?_, ?_⟩
      · apply block_take (n := r.blockHashes.length * blockSize)
        · simp only [sessionInput]
          rw [List.take_append_of_le_length htokens, ← pyTake_take r.allTokenIds, List.take_take,
            min_eq_left htokens]
        · have := Nat.mul_le_mul_right blockSize hi
          linarith
      · have hkeys : itemKeys (sessionInput r update).mmFeatures (0 + i * blockSize)
            (0 + i * blockSize + blockSize) =
            itemKeys r.mmFeatures (0 + i * blockSize) (0 + i * blockSize + blockSize) := by
          have hend : 0 + i * blockSize + blockSize ≤ r.blockHashes.length * blockSize := by
            have := Nat.mul_le_mul_right blockSize hi
            linarith
          rcases hlast with hnil | hlast
          · simp [sessionInput, hnil]
          · exact itemKeys_append (by omega) (fun f hf => hend.trans (hitems f hf)) hlast
        rw [hkeys]
        rfl
    · show r.blockHashes.length ≤ (sessionInput r update).allTokenIds.length / blockSize
      rw [Nat.le_div_iff_mul_le hbs]
      simp only [sessionInput, List.length_append]
      omega
    · exact hok
  unfold updateRequestAsSession at hstep
  cases hprompt : r.promptTokenIds with
  | none => simp [hprompt] at hstep
  | some promptTokenIds =>
    simp only [hprompt, Except.ok.injEq] at hstep
    subst hstep
    rw [hashesCurrent_iff hbs]
    exact ((hashesCurrent_iff hbs).mp hcurrent).trans
      (chain_congr fns blockSize none fun i _ => ⟨rfl, rfl⟩)

/-- In a history whose events all meet their condition the block hashes stay current. -/
theorem incremental_hashing (hbs : 0 < blockSize) {r : Request β}
    (h : HashHistory fns blockSize r) : HashesCurrent fns blockSize r := by
  induction h with
  | init r =>
    rw [hashesCurrent_iff hbs]
    have hscratch := scratchBlockHashes_eq_chain fns hbs r
    show [] ++ scratchBlockHashes fns blockSize r = _
    rw [List.nil_append, hscratch]
    exact chain_congr fns blockSize none fun i _ => ⟨rfl, rfl⟩
  | @step r r' op _ hop hstep ih =>
    cases op with
    | appendOutputTokenIds tokenIds =>
      simp only [hashStep, Except.ok.injEq] at hstep
      subst hstep
      exact hashesCurrent_append hbs ih hop
    | updateRequestAsSession update => exact hashesCurrent_session hbs ih hop.1 hop.2 hstep
    | setNumComputedTokens n =>
      simp only [hashStep, Except.ok.injEq] at hstep
      subst hstep
      rw [hashesCurrent_iff hbs]
      exact ((hashesCurrent_iff hbs).mp ih).trans
        (chain_congr fns blockSize none fun i _ => ⟨rfl, rfl⟩)

/-- Six tokens with an image in the first block. -/
def imagePrompt : Request Digest :=
  { requestId := 0, promptTokenIds := some [1, 2, 3, 4, 5, 6], numPromptTokens := 6,
    allTokenIds := [1, 2, 3, 4, 5, 6], mmFeatures := [⟨"a", ⟨1, 2, none⟩⟩] }

/-- The next input of its session, with an image of its own. -/
def imageUpdate : StreamingUpdate := ⟨some [⟨"b", ⟨0, 2, none⟩⟩], some [10, 11, 12], 1, 0, some {}⟩

/-- Three output tokens fill the second block of the session, and the next input fills the third. -/
theorem incremental_hashing_session :
    ∃ r, updateRequestAsSession symbolicHash 4
        { appendOutputTokenIds symbolicHash 4 (initBlockHashes symbolicHash 4 imagePrompt) [7, 8, 9] with
          numComputedTokens := 9 } imageUpdate = .ok r ∧
      r.blockHashes.length = 3 ∧ HashesCurrent symbolicHash 4 r := by
  have happended : HashHistory symbolicHash 4 _ := .step (.init imagePrompt)
    (show HashOpOk 4 _ (.appendOutputTokenIds [7, 8, 9]) from Or.inr (Or.inr (Or.inr (Or.inl ⟨_, rfl, by decide⟩)))) rfl
  have hcomputed : HashHistory symbolicHash 4 _ := .step happended
    (show HashOpOk 4 _ (.setNumComputedTokens 9) from trivial) rfl
  have hkept : HashedBlocksKept 4 { appendOutputTokenIds symbolicHash 4 (initBlockHashes symbolicHash 4 imagePrompt)
      [7, 8, 9] with numComputedTokens := 9 } imageUpdate := by
    refine ⟨by decide, by decide, Or.inr fun last hlast f hf => ?_⟩
    obtain rfl := Option.some.inj hlast
    obtain rfl := List.mem_singleton.mp hf
    exact le_rfl
  have hcontinued : HashHistory symbolicHash 4 _ := .step hcomputed
    (show HashOpOk 4 _ (.updateRequestAsSession imageUpdate) from
      ⟨hkept, Or.inr (Or.inr (Or.inr (Or.inr (Or.inl rfl))))⟩) rfl
  exact ⟨_, rfl, rfl, incremental_hashing (by decide) hcontinued⟩

/-- Two images in one block that fills up while decoding: the incremental hash takes the last one
only. -/
theorem incremental_hashing_two_images :
    let image (name : String) (offset length : Nat) : MultiModalFeatureSpec :=
      ⟨name, ⟨offset, length, none⟩⟩
    let r : Request Digest := { requestId := 0, promptTokenIds := some [1, 2, 3, 4, 5, 6, 7],
                                numPromptTokens := 7, allTokenIds := [1, 2, 3, 4, 5, 6, 7],
                                mmFeatures := [image "a" 4 1, image "b" 5 2] }
    ¬ HashesCurrent symbolicHash 4
      (appendOutputTokenIds symbolicHash 4 (initBlockHashes symbolicHash 4 r) [8]) := by
  intro image r h
  have hlast : (Digest.block (.block .none [1, 2, 3, 4] none) [5, 6, 7, 8] (some [.str "b"])) =
      .block (.block .none [1, 2, 3, 4] none) [5, 6, 7, 8] (some [.str "a", .str "b"]) := by
    have := congrArg List.getLast? h.2
    exact Option.some.inj this
  simp at hlast

end History
end Yuan.Core
