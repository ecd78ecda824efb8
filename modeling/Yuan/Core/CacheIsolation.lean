import Yuan.Core.IncrementalHashing
import Yuan.Core.HybridCacheHit
import Yuan.Core.KVCacheManager
import Yuan.Core.PoolRuns
import Yuan.Lib.HashChain
import Mathlib.Logic.Equiv.List

/-!
# What a block hash commits to

With hash functions without collisions, equal block hashes mean equal token ids and equal extra keys
in all blocks up to that one (`blockHash_eq_iff`). The extra keys are strings in a row without tags:
the LoRA name, the identifiers of the items, the salt. Which of them a string is cannot be told from
the row, and where an item starts is not in it at all. Requests are told apart if they have the same
layout, or a different number of strings in some block; any other two layouts have requests that collide.

A block of the pool is found under the hash it was cached with. So if the requests that are served are told
apart, whatever a cache hit returns was computed for the same content.
-/

namespace Yuan.Core

/-! ## Items in order -/

section Items

variable {a b : Nat}

/-- The items stand one behind the other, and none of them is empty. -/
def InOrder (fs : List MultiModalFeatureSpec) : Prop :=
  (∀ f ∈ fs, f.offset < f.stop) ∧ fs.Pairwise fun f g => f.stop ≤ g.offset

/-- The item has a position in the block. -/
def overlaps (a b : Nat) (f : MultiModalFeatureSpec) : Bool := f.offset < b ∧ a < f.stop

theorem InOrder.sublist {fs fs' : List MultiModalFeatureSpec} (h : InOrder fs) (hsub : fs'.Sublist fs) : InOrder fs' :=
  ⟨fun f hf => h.1 f (hsub.subset hf), h.2.sublist hsub⟩

theorem InOrder.stop_le_last {fs : List MultiModalFeatureSpec} {f last : MultiModalFeatureSpec} (h : InOrder fs)
    (hf : f ∈ fs) (hlast : fs.getLast? = some last) : f.stop ≤ last.stop := by
  obtain ⟨front, rfl⟩ := List.getLast?_eq_some_iff.mp hlast
  rcases List.mem_append.mp hf with hf | hf
  · have hbefore := (List.pairwise_append.mp h.2).2.2 f hf last (List.mem_singleton_self last)
    have hne := h.1 last (List.mem_append_right _ (List.mem_singleton_self last))
    omega
  · rw [List.mem_singleton.mp hf]

theorem mmLoop_of_inOrder {fs : List MultiModalFeatureSpec} (h : InOrder fs) (hpassed : ∀ f ∈ fs, a < f.stop)
    (i : Nat) : (mmLoop a b fs i).1 = (fs.filter (overlaps a b)).map (·.identifier) := by
  induction fs generalizing i with
  | nil => rfl
  | cons f fs ih =>
    have hf := hpassed f List.mem_cons_self
    have hrest := ih (h.sublist (List.sublist_cons_self f fs)) (fun g hg => hpassed g (List.mem_cons_of_mem f hg))
    by_cases hoff : b > f.offset
    · have hover : overlaps a b f = true := by simp only [overlaps, decide_eq_true_eq]; omega
      rw [mmLoop, if_pos hoff, if_neg (by omega), List.filter_cons_of_pos hover, List.map_cons]
      split
      · exact congrArg (f.identifier :: ·) (hrest (i + 1))
      · -- the items behind start behind the block
        rw [List.filter_eq_nil_iff.mpr, List.map_nil]
        intro g hg
        have hbehind := (List.pairwise_cons.mp h.2).1 g hg
        simp only [overlaps, decide_eq_true_eq]
        omega
    · rw [mmLoop, if_neg hoff, List.filter_eq_nil_iff.mpr, List.map_nil]
      intro g hg
      have hbehind : f.offset ≤ g.offset := by
        rcases List.mem_cons.mp hg with rfl | hg
        · exact le_refl _
        · have hstop := (List.pairwise_cons.mp h.2).1 g hg
          have hne := h.1 f List.mem_cons_self
          omega
      simp only [overlaps, decide_eq_true_eq]
      omega

/-- In items that stand in order, a walk finds those that overlap the block. -/
theorem itemKeys_of_inOrder {fs : List MultiModalFeatureSpec} (h : InOrder fs) :
    itemKeys fs a b = (fs.filter (overlaps a b)).map (·.identifier) := by
  unfold itemKeys
  cases hlast : fs.getLast? with
  | none => rw [List.getLast?_eq_none_iff.mp hlast, List.filter_nil, List.map_nil]
  | some last =>
    dsimp only
    split
    case isTrue hover =>
      rw [List.filter_eq_nil_iff.mpr, List.map_nil]
      intro f hf
      have hstop := h.stop_le_last hf hlast
      simp only [overlaps, decide_eq_true_eq]
      omega
    case isFalse =>
      have hsplit := List.takeWhile_append_dropWhile (p := passed a) (l := fs)
      have hdrop : fs.drop (walkIndex fs a) = fs.dropWhile (passed a) := by
        have hleft : (fs.takeWhile (passed a) ++ fs.dropWhile (passed a)).drop (fs.takeWhile (passed a)).length
            = fs.dropWhile (passed a) := List.drop_left
        rwa [hsplit] at hleft
      have hdone : (fs.takeWhile (passed a)).filter (overlaps a b) = [] := by
        refine List.filter_eq_nil_iff.mpr fun f hf => ?_
        have hpassed := List.mem_takeWhile_imp hf
        simp only [passed, decide_eq_true_eq] at hpassed
        simp only [overlaps, decide_eq_true_eq]
        omega
      have hrest := h.sublist (List.dropWhile_sublist (passed a) (l := fs))
      rw [hdrop, mmLoop_of_inOrder hrest]
      · conv_rhs => rw [← hsplit, List.filter_append, hdone, List.nil_append]
      · intro f hf
        -- the first item left ends behind `a`, and so do those behind it
        cases hleft : fs.dropWhile (passed a) with
        | nil =>
          rw [hleft] at hf
          exact absurd hf List.not_mem_nil
        | cons g rest =>
          have hg : ¬ passed a g = true := by
            have hhead := List.head_dropWhile_not (passed a) (l := fs) (by simp [hleft])
            simpa [hleft] using hhead
          rw [hleft] at hf hrest
          simp only [passed, decide_eq_true_eq] at hg
          have hne := hrest.1 g List.mem_cons_self
          rcases List.mem_cons.mp hf with rfl | hf
          · omega
          · have hbehind := (List.pairwise_cons.mp hrest.2).1 f hf
            have hne' := hrest.1 f (List.mem_cons_of_mem g hf)
            omega

end Items

/-! ## What blocks depend on -/

section Content

variable {β : Type}

/-- The tokens of block `j`. -/
def blockTokens (blockSize : Nat) (r : Request β) (j : Nat) : List Nat :=
  (r.allTokenIds.take (j * blockSize + blockSize)).drop (j * blockSize)

/-- The prompt embeddings of block `j`, if the request has any. -/
def blockEmbeds (blockSize : Nat) (r : Request β) (j : Nat) : Option (List (List Nat)) :=
  r.promptEmbeds.map fun embeds =>
    (embeds.take (j * blockSize + blockSize)).drop (j * blockSize)

/-- The items that overlap block `j`: identifier, and position relative to the block. -/
def blockItems (blockSize : Nat) (r : Request β) (j : Nat) : List (String × Int) :=
  (r.mmFeatures.filter fun f => f.offset < j * blockSize + blockSize ∧ j * blockSize < f.stop).map
    fun f => (f.identifier, (f.offset : Int) - j * blockSize)

/-- The LoRA name. -/
def loraName (r : Request β) : Option String := r.loraRequest.map (·.loraName)

/-- The salt; the empty salt counts as none. -/
def salt (r : Request β) : Option String := r.cacheSalt.filter (· ≠ "")

/-- The strings of block `j` in a row: LoRA name, identifiers of the items, and in the first block the salt. -/
def blockStrings (blockSize : Nat) (r : Request β) (j : Nat) : List String :=
  (loraName r).toList ++ (blockItems blockSize r j).map Prod.fst ++ if j = 0 then (salt r).toList else []

/-- Two requests agree on everything the blocks `0 .. i` depend on. -/
def SameContent (blockSize : Nat) (r r' : Request β) (i : Nat) : Prop :=
  loraName r = loraName r' ∧ salt r = salt r' ∧
    ∀ j ≤ i, blockTokens blockSize r j = blockTokens blockSize r' j ∧
      blockItems blockSize r j = blockItems blockSize r' j ∧
      blockEmbeds blockSize r j = blockEmbeds blockSize r' j

/-! ## Layouts -/

/-- Where the items of block `j` start. -/
def itemPositions (blockSize : Nat) (r : Request β) (j : Nat) : List Int := (blockItems blockSize r j).map Prod.snd

/-- How many strings block `j` has. -/
def numStrings (blockSize : Nat) (r : Request β) (j : Nat) : Nat :=
  (loraName r).toList.length + (itemPositions blockSize r j).length + if j = 0 then (salt r).toList.length else 0

/-- In the blocks `0 .. i` both requests have a LoRA name or none has, both a salt or none has, and their items
start at the same positions. -/
structure SameLayout (blockSize : Nat) (r r' : Request β) (i : Nat) : Prop where
  loraName : (loraName r).isSome = (loraName r').isSome
  salt : (salt r).isSome = (salt r').isSome
  items : ∀ j ≤ i, itemPositions blockSize r j = itemPositions blockSize r' j

/-- The layouts of the blocks `0 .. i` are the same, or so different that the numbers of strings tell them apart. -/
def ToldApart (blockSize : Nat) (r r' : Request β) (i : Nat) : Prop :=
  SameLayout blockSize r r' i ∨ ∃ j ≤ i, numStrings blockSize r j ≠ numStrings blockSize r' j

/-- `s` has the layout of `r`; its tokens, embeddings and strings may be others. -/
structure LaidOutAs (s r : Request β) : Prop where
  numTokens : s.numTokens = r.numTokens
  loraName : (loraName s).isSome = (loraName r).isSome
  salt : (salt s).isSome = (salt r).isSome
  items : s.mmFeatures.map (·.mmPosition) = r.mmFeatures.map (·.mmPosition)

theorem LaidOutAs.refl (r : Request β) : LaidOutAs r r := ⟨rfl, rfl, rfl, rfl⟩

variable {blockSize i : Nat} {r r' s s' : Request β}

theorem length_blockStrings (j : Nat) : (blockStrings blockSize r j).length = numStrings blockSize r j := by
  unfold blockStrings numStrings itemPositions
  simp only [List.length_append, List.length_map]
  split <;> rfl

theorem itemPositions_eq (r : Request β) (j : Nat) : itemPositions blockSize r j =
    ((r.mmFeatures.map (·.mmPosition)).filter fun p => p.offset < j * blockSize + blockSize ∧
      j * blockSize < p.offset + p.length).map fun p => (p.offset : Int) - j * blockSize := by
  rw [itemPositions, blockItems, List.filter_map, List.map_map, List.map_map]
  rfl

theorem LaidOutAs.itemPositions (h : LaidOutAs s r) (j : Nat) :
    itemPositions blockSize s j = itemPositions blockSize r j := by
  rw [itemPositions_eq, itemPositions_eq, h.items]

theorem length_toList_of_isSome {x y : Option String} (h : x.isSome = y.isSome) :
    x.toList.length = y.toList.length := by
  cases x <;> cases y <;> first | rfl | cases h

theorem LaidOutAs.numStrings (h : LaidOutAs s r) (j : Nat) : numStrings blockSize s j = numStrings blockSize r j := by
  unfold Core.numStrings
  rw [h.itemPositions, length_toList_of_isSome h.loraName, length_toList_of_isSome h.salt]

theorem LaidOutAs.inOrder (h : LaidOutAs s r) (horder : InOrder r.mmFeatures) : InOrder s.mmFeatures := by
  have hne : ∀ fs : List MultiModalFeatureSpec, (∀ f ∈ fs, f.offset < f.stop) ↔
      ∀ p ∈ fs.map (·.mmPosition), p.offset < p.offset + p.length := fun fs => by
    rw [List.forall_mem_map]
    rfl
  have hpairwise : ∀ fs : List MultiModalFeatureSpec, fs.Pairwise (fun f g => f.stop ≤ g.offset) ↔
      (fs.map (·.mmPosition)).Pairwise fun p q => p.offset + p.length ≤ q.offset := fun fs => by
    rw [List.pairwise_map]
    rfl
  unfold InOrder at horder ⊢
  rw [hne, hpairwise] at horder ⊢
  rw [h.items]
  exact horder

theorem toldApart_congr (h : LaidOutAs s r) (h' : LaidOutAs s' r') :
    ToldApart blockSize s s' i ↔ ToldApart blockSize r r' i := by
  have hlayout : SameLayout blockSize s s' i ↔ SameLayout blockSize r r' i := by
    constructor
    · rintro ⟨hlora, hsalt, hitems⟩
      refine ⟨by rw [← h.loraName, ← h'.loraName, hlora], by rw [← h.salt, ← h'.salt, hsalt], fun j hj => ?_⟩
      rw [← h.itemPositions, ← h'.itemPositions, hitems j hj]
    · rintro ⟨hlora, hsalt, hitems⟩
      refine ⟨by rw [h.loraName, h'.loraName, hlora], by rw [h.salt, h'.salt, hsalt], fun j hj => ?_⟩
      rw [h.itemPositions, h'.itemPositions, hitems j hj]
  unfold ToldApart
  simp only [hlayout, h.numStrings, h'.numStrings]

/-- Requests of the same content have the same layout. -/
theorem SameContent.sameLayout (h : SameContent blockSize r r' i) : SameLayout blockSize r r' i :=
  ⟨congrArg Option.isSome h.1, congrArg Option.isSome h.2.1, fun j hj => by
    rw [itemPositions, itemPositions, (h.2.2 j hj).2.1]⟩

end Content

section Hashes

variable {β : Type} (fns : HashFunctions β) (blockSize : Nat)

/-- What is hashed of block `j`, next to the hash of the block before it. -/
def blockContent (r : Request β) (j : Nat) : List Nat × Option (List (ExtraKey β)) :=
  (blockTokens blockSize r j, extraKeys fns r (j * blockSize) (j * blockSize + blockSize)
    (itemKeys r.mmFeatures (j * blockSize) (j * blockSize + blockSize)))

/-- The hash of block `i`: the hash chain over the contents of the blocks `0 .. i`. -/
def blockHash (r : Request β) (i : Nat) : β :=
  ((List.range (i + 1)).map (blockContent fns blockSize r)).foldl
    (fun parent content => fns.hashFunction (parent, content.1, content.2)) fns.noneHash

theorem blockHash_succ (r : Request β) (i : Nat) :
    blockHash fns blockSize r (i + 1) = hashBlockTokens fns (some (blockHash fns blockSize r i))
      (blockContent fns blockSize r (i + 1)).1 (blockContent fns blockSize r (i + 1)).2 := by
  rw [blockHash, List.range_succ, List.map_append, List.foldl_append]
  rfl

theorem chain_eq_map (r : Request β) (k : Nat) :
    chain fns blockSize r k 0 none = (List.range k).map (blockHash fns blockSize r) := by
  induction k with
  | zero => rfl
  | succ k ih =>
    rw [chain_add, ih, List.range_succ, List.map_append]
    cases k with
    | zero => simp [chain, blockHash, blockContent, blockTokens, hashBlockTokens]
    | succ k =>
      have hlast : (((List.range (k + 1)).map (blockHash fns blockSize r)).getLast?).or none =
          some (blockHash fns blockSize r k) := by
        simp [List.range_succ]
      rw [hlast, List.map_cons, blockHash_succ, Nat.zero_add]
      rfl

variable {fns blockSize} {r r' : Request β}

/-- Reading the block hashes of a request. -/
theorem scratchBlockHashes_getElem? (hbs : 0 < blockSize) {i : Nat} {h : β} :
    (scratchBlockHashes fns blockSize r)[i]? = some h ↔
      i < r.numTokens / blockSize ∧ blockHash fns blockSize r i = h := by
  rw [scratchBlockHashes_eq_chain fns hbs, chain_eq_map]
  simp [List.getElem?_eq_some_iff]

/-- A hash function that has no collision tells the parents and the contents apart. -/
theorem injective2_hashFunction (hinj : Function.Injective fns.hashFunction) :
    Function.Injective2 fun (parent : β) (content : List Nat × Option (List (ExtraKey β))) =>
      fns.hashFunction (parent, content.1, content.2) := by
  intro p p' c c' h
  have := hinj h
  simp only [Prod.mk.injEq] at this
  exact ⟨this.1, Prod.ext this.2.1 this.2.2⟩

/-- A block hash commits to the contents of all blocks up to it. -/
theorem blockHash_eq_iff (hinj : Function.Injective fns.hashFunction) {i : Nat} :
    blockHash fns blockSize r i = blockHash fns blockSize r' i ↔
      ∀ j ≤ i, blockContent fns blockSize r j = blockContent fns blockSize r' j := by
  constructor
  · intro h j hj
    have hlist := HashChain.foldl_inj_of_length (injective2_hashFunction hinj) (by simp) h
    exact List.map_inj_left.mp hlist j (List.mem_range.mpr (by omega))
  · intro h
    rw [blockHash]
    congr 1
    exact List.map_inj_left.mpr fun j hj => h j (by have := List.mem_range.mp hj; omega)

/-- In a row whose parts are present on both sides, the first and the last part agree. -/
theorem ends_eq_of_row_eq {a a' c c' : Option String} {b b' : List String}
    (h : a.toList ++ b ++ c.toList = a'.toList ++ b' ++ c'.toList)
    (ha : a.isSome = a'.isSome) (hc : c.isSome = c'.isSome) : a = a' ∧ c = c' := by
  constructor
  · cases a with
    | none => cases a' with
      | none => rfl
      | some y => cases ha
    | some x => cases a' with
      | none => cases ha
      | some y =>
        simp only [Option.toList_some, List.cons_append, List.cons.injEq] at h
        rw [h.1]
  · cases c with
    | none => cases c' with
      | none => rfl
      | some y => cases hc
    | some x => cases c' with
      | none => cases hc
      | some y =>
        have := congrArg List.getLast? h
        simpa using this

/-- The request with the layout of `r` in which all tokens and all strings are the same. -/
def uniform (r : Request β) : Request β :=
  { r with
    allTokenIds := List.replicate r.numTokens 0
    promptEmbeds := none
    loraRequest := r.loraRequest.map fun lora => { lora with loraName := "x" }
    cacheSalt := (salt r).map fun _ => "x"
    mmFeatures := r.mmFeatures.map fun f => { f with identifier := "x" } }

theorem laidOutAs_uniform (r : Request β) : LaidOutAs (uniform r) r where
  numTokens := List.length_replicate
  loraName := by
    unfold loraName uniform
    cases r.loraRequest <;> rfl
  salt := by
    have hsalt : (uniform r).cacheSalt = (salt r).map fun _ => "x" := rfl
    rw [salt, hsalt]
    cases salt r <;> rfl
  items := by
    show (r.mmFeatures.map _).map _ = _
    rw [List.map_map]
    rfl

theorem blockStrings_uniform (r : Request β) (j : Nat) :
    blockStrings blockSize (uniform r) j = List.replicate (numStrings blockSize r j) "x" := by
  rw [List.eq_replicate_iff, length_blockStrings, (laidOutAs_uniform r).numStrings]
  refine ⟨rfl, fun x hx => ?_⟩
  rcases List.mem_append.mp hx with hx | hx
  · rcases List.mem_append.mp hx with hx | hx
    · unfold loraName uniform at hx
      cases hlora : r.loraRequest <;> rw [hlora] at hx <;> simp at hx
      exact hx
    · unfold blockItems uniform at hx
      simp only [List.map_map, List.mem_map, List.mem_filter] at hx
      obtain ⟨f, ⟨⟨g, -, rfl⟩, -⟩, rfl⟩ := hx
      rfl
  · split at hx
    · have hsalt : (uniform r).cacheSalt = (salt r).map fun _ => "x" := rfl
      rw [salt, hsalt] at hx
      cases hr : salt r <;> rw [hr] at hx <;> simp [Option.filter] at hx
      exact hx
    · exact absurd hx List.not_mem_nil

/-- Full blocks of uniform requests have the same tokens. -/
theorem blockTokens_uniform {j : Nat} (hj : j * blockSize + blockSize ≤ r.numTokens) :
    blockTokens blockSize (uniform r) j = List.replicate blockSize 0 := by
  show ((List.replicate r.numTokens 0).take _).drop _ = _
  rw [List.take_replicate, List.drop_replicate, min_eq_left hj, Nat.add_sub_cancel_left]

theorem full_of_lt {i j : Nat} (hi : i < r.numTokens / blockSize) (hj : j ≤ i) :
    j * blockSize + blockSize ≤ r.numTokens := by
  have hle : (j + 1) * blockSize ≤ r.numTokens / blockSize * blockSize := Nat.mul_le_mul_right _ (by omega)
  rw [Nat.succ_mul] at hle
  exact hle.trans (Nat.div_mul_le_self _ _)

section

variable (hbs : 0 < blockSize) (hembeds : Function.Injective fns.embedsHash) (horder : InOrder r.mmFeatures)
  (horder' : InOrder r'.mmFeatures)
include hbs hembeds horder horder'

/-- The extra keys are the strings in a row, and the digest of the embeddings. -/
theorem extraKeys_eq_iff {j : Nat} :
    (blockContent fns blockSize r j).2 = (blockContent fns blockSize r' j).2 ↔
      blockStrings blockSize r j = blockStrings blockSize r' j ∧
        blockEmbeds blockSize r j = blockEmbeds blockSize r' j := by
  have hkeys : ∀ r : Request β, InOrder r.mmFeatures → genLoraExtraHashKeys r ++
      (itemKeys r.mmFeatures (j * blockSize) (j * blockSize + blockSize)).map .str ++
      genSaltExtraHashKeys r (j * blockSize) ++
      genPromptEmbedsExtraHashKeys fns r (j * blockSize) (j * blockSize + blockSize) =
      (blockStrings blockSize r j).map .str ++
        ((blockEmbeds blockSize r j).map fun rows => .digest (fns.embedsHash rows)).toList := by
    intro r horder
    have hfirst : j * blockSize = 0 ↔ j = 0 := by simp [hbs.ne']
    have hitems : itemKeys r.mmFeatures (j * blockSize) (j * blockSize + blockSize) =
        (blockItems blockSize r j).map Prod.fst := by
      rw [itemKeys_of_inOrder horder, blockItems, List.map_map]
      rfl
    have hlora : genLoraExtraHashKeys r = (loraName r).toList.map .str := by
      unfold genLoraExtraHashKeys loraName
      cases r.loraRequest <;> rfl
    have hsalt : genSaltExtraHashKeys r (j * blockSize) =
        (if j = 0 then (salt r).toList else []).map .str := by
      unfold genSaltExtraHashKeys salt
      simp only [hfirst]
      cases r.cacheSalt with
      | none => simp
      | some s => by_cases h0 : j = 0 <;> by_cases hs : s = "" <;> simp [Option.filter, h0, hs]
    have hdigest : genPromptEmbedsExtraHashKeys fns r (j * blockSize) (j * blockSize + blockSize) =
        ((blockEmbeds blockSize r j).map fun rows => .digest (fns.embedsHash rows)).toList := by
      unfold genPromptEmbedsExtraHashKeys blockEmbeds
      cases r.promptEmbeds <;> rfl
    rw [hitems, hlora, hsalt, hdigest, blockStrings, List.map_append, List.map_append]
  have hif : ∀ l l' : List (ExtraKey β),
      (if l.isEmpty then none else some l) = (if l'.isEmpty then none else some l') ↔ l = l' := by
    intro l l'
    cases l <;> cases l' <;> simp
  have hcontent : ∀ r : Request β, InOrder r.mmFeatures → (blockContent fns blockSize r j).2 =
      if ((blockStrings blockSize r j).map ExtraKey.str ++ ((blockEmbeds blockSize r j).map
        fun rows => ExtraKey.digest (fns.embedsHash rows)).toList).isEmpty then none
      else some ((blockStrings blockSize r j).map ExtraKey.str ++ ((blockEmbeds blockSize r j).map
        fun rows => ExtraKey.digest (fns.embedsHash rows)).toList) := by
    intro r horder
    rw [← hkeys r horder]
    rfl
  rw [hcontent r horder, hcontent r' horder', hif]
  constructor
  · intro h
    -- strings and digests can be told apart
    have hstr := congrArg (List.filterMap fun
      | ExtraKey.str s => some s
      | ExtraKey.digest _ => none) h
    have hdig := congrArg (List.filterMap fun
      | ExtraKey.str _ => none
      | ExtraKey.digest d => some d) h
    refine ⟨?_, ?_⟩
    · cases he : blockEmbeds blockSize r j <;> cases he' : blockEmbeds blockSize r' j <;>
        simpa [he, he', List.filterMap_map] using hstr
    · cases he : blockEmbeds blockSize r j <;> cases he' : blockEmbeds blockSize r' j <;>
        simp [he, he'] at hdig
      · rfl
      · rw [hembeds hdig]
  · rintro ⟨hs, he⟩
    rw [hs, he]

variable (hinj : Function.Injective fns.hashFunction)
include hinj

/-- Equal block hashes mean equal tokens, embeddings and strings in a row, and conversely. -/
theorem blockHash_eq_iff_strings {i : Nat} :
    blockHash fns blockSize r i = blockHash fns blockSize r' i ↔
      ∀ j ≤ i, blockTokens blockSize r j = blockTokens blockSize r' j ∧
        blockEmbeds blockSize r j = blockEmbeds blockSize r' j ∧
        blockStrings blockSize r j = blockStrings blockSize r' j := by
  rw [blockHash_eq_iff hinj]
  refine forall₂_congr fun j _ => ?_
  rw [Prod.ext_iff, extraKeys_eq_iff hbs hembeds horder horder']
  constructor
  · rintro ⟨ht, hs, he⟩
    exact ⟨ht, he, hs⟩
  · rintro ⟨ht, he, hs⟩
    exact ⟨ht, hs, he⟩

/-- Block hashes that agree at `i` mean the same content of the blocks `0 .. i`. -/
def Isolated (fns : HashFunctions β) (blockSize : Nat) (r r' : Request β) (i : Nat) : Prop :=
  ∀ h, (scratchBlockHashes fns blockSize r)[i]? = some h →
    (scratchBlockHashes fns blockSize r')[i]? = some h → SameContent blockSize r r' i

/-- Where the layouts are the same, equal strings are the same name, the same items and the same salt. -/
theorem sameContent_of_blockHash_eq {i : Nat} (htold : ToldApart blockSize r r' i)
    (heq : blockHash fns blockSize r i = blockHash fns blockSize r' i) :
    SameContent blockSize r r' i := by
  have hagree := (blockHash_eq_iff_strings hbs hembeds horder horder' hinj).mp heq
  rcases htold with hlayout | ⟨j, hj, hne⟩
  · -- the first block carries both the name and the salt
    have hrow := (hagree 0 (Nat.zero_le i)).2.2
    obtain ⟨hlora, hsalt⟩ := ends_eq_of_row_eq hrow hlayout.loraName hlayout.salt
    refine ⟨hlora, hsalt, fun j hj => ⟨(hagree j hj).1, ?_, (hagree j hj).2.1⟩⟩
    have hstrings := (hagree j hj).2.2
    rw [blockStrings, hlora, hsalt] at hstrings
    have hnames := List.append_cancel_left (List.append_cancel_right hstrings)
    exact (List.zip_of_prod hnames (hlayout.items j hj)).trans (List.zip_of_prod rfl rfl).symm
  · have hstrings := congrArg List.length (hagree j hj).2.2
    rw [length_blockStrings, length_blockStrings] at hstrings
    exact absurd hstrings hne

/-- Requests of two layouts are isolated from each other exactly if their layouts tell them apart. -/
theorem isolated_iff_toldApart (i : Nat) :
    (∀ s s', LaidOutAs s r → LaidOutAs s' r' → Isolated fns blockSize s s' i) ↔
      (i < r.numTokens / blockSize → i < r'.numTokens / blockSize → ToldApart blockSize r r' i) := by
  constructor
  · intro h hi hi'
    by_contra hnot
    obtain ⟨hlayout, hnumber⟩ := not_or.mp hnot
    push Not at hnumber
    have hu := laidOutAs_uniform r
    have hu' := laidOutAs_uniform r'
    have heq : blockHash fns blockSize (uniform r) i = blockHash fns blockSize (uniform r') i := by
      refine (blockHash_eq_iff_strings hbs hembeds (hu.inOrder horder) (hu'.inOrder horder') hinj).mpr fun j hj => ?_
      refine ⟨?_, rfl, ?_⟩
      · rw [blockTokens_uniform (full_of_lt hi hj), blockTokens_uniform (full_of_lt hi' hj)]
      · rw [blockStrings_uniform, blockStrings_uniform, hnumber j hj]
    have hread : (scratchBlockHashes fns blockSize (uniform r))[i]? = some (blockHash fns blockSize (uniform r) i) :=
      (scratchBlockHashes_getElem? hbs).mpr ⟨by rw [hu.numTokens]; exact hi, rfl⟩
    have hread' : (scratchBlockHashes fns blockSize (uniform r'))[i]? = some (blockHash fns blockSize (uniform r) i) :=
      (scratchBlockHashes_getElem? hbs).mpr ⟨by rw [hu'.numTokens]; exact hi', heq.symm⟩
    have hsame := h (uniform r) (uniform r') hu hu' _ hread hread'
    exact not_or.mpr ⟨hlayout, by push Not; exact hnumber⟩ ((toldApart_congr hu hu').mp (Or.inl hsame.sameLayout))
  · intro h s s' hs hs' hash hread hread'
    obtain ⟨hi, rfl⟩ := (scratchBlockHashes_getElem? hbs).mp hread
    obtain ⟨hi', heq⟩ := (scratchBlockHashes_getElem? hbs).mp hread'
    rw [hs.numTokens] at hi
    rw [hs'.numTokens] at hi'
    exact sameContent_of_blockHash_eq hbs hembeds (hs.inOrder horder) (hs'.inOrder horder') hinj
      ((toldApart_congr hs hs').mpr (h hi hi')) heq.symm

end

/-- A block hash commits to its index, too, if the seed is no hash. -/
theorem index_eq_of_blockHash_eq (hinj : Function.Injective fns.hashFunction)
    (hseed : ∀ x, fns.hashFunction x ≠ fns.noneHash) {i j : Nat}
    (h : blockHash fns blockSize r i = blockHash fns blockSize r' j) : i = j := by
  have hlist := HashChain.foldl_inj (injective2_hashFunction hinj) (fun parent content => hseed _) h
  have hlen := congrArg List.length hlist
  simpa using hlen

end Hashes

/-! ## Cache hits -/

section Hits

variable {β : Type} (fns : HashFunctions (List β)) (hashBlockSize : Nat)

/-- The hashes of a request at the block size of a group. -/
def groupHashes (r : Request (List β)) (blockSize : Nat) : List (List β) :=
  CacheHit.getBlockHashes hashBlockSize (scratchBlockHashes fns hashBlockSize r) blockSize

variable [DecidableEq β] (served : Request (List β) → Prop) (specOf : Nat → KVCacheSpec)

/-- Blocks are cached with the hashes of requests that are served, at the block size of the row's group. -/
def CachesServed : PoolRuns.Op (List β × Nat) Row → Prop
  | .cacheFullBlocks row _ _ blockHashes => ∃ r, served r ∧
      blockHashes = (groupHashes fns hashBlockSize r (specOf row.1).blockSize).map fun h => (h, row.1)
  | _ => True

/-- The states of a block pool that caches blocks of the served requests only. -/
inductive CachingRun (sinkBlocks : List Nat) : KVState (List β × Nat) Row → Prop where
  | start {numGpuBlocks : Nat} {enableCaching : Bool} {numSinkBlocks : List Nat}
      {s : KVState (List β × Nat) Row}
      (h : PoolRuns.start numGpuBlocks enableCaching numSinkBlocks = .ok (sinkBlocks, s)) :
      CachingRun sinkBlocks s
  | step {s s' : KVState (List β × Nat) Row} {op : PoolRuns.Op (List β × Nat) Row}
      (h : CachingRun sinkBlocks s) (henabled : PoolRuns.Enabled sinkBlocks s op)
      (hcaches : CachesServed fns hashBlockSize served specOf op) (hstep : PoolRuns.step s op = .ok s') :
      CachingRun sinkBlocks s'

/-- Block `b` carries the hash of block `k` of the request. -/
def Carries (s : KVState (List β × Nat) Row) (r : Request (List β)) (k b : Nat) : Prop :=
  ∃ h g, (groupHashes fns hashBlockSize r (specOf g).blockSize)[k]? = some h ∧
    (s.pool.blocks b).blockHash = some (h, g)

/-- Block `b` may serve as block `k` of the request: it was cached as block `k` of a request, and any request as whose
block it was cached has the same content up to there. -/
structure MayServe (s : KVState (List β × Nat) Row) (r : Request (List β)) (spec : KVCacheSpec) (k b : Nat) :
    Prop where
  cached : ∃ r', served r' ∧ Carries fns hashBlockSize specOf s r' k b
  content : ∀ r' j, served r' → Carries fns hashBlockSize specOf s r' j b →
    j = k ∧ SameContent hashBlockSize r r' ((k + 1) * (spec.blockSize / hashBlockSize) - 1)

/-- In every run, the search of a manager for a served request returns null blocks and blocks that may serve it. -/
def ManagerHitsIsolated : Prop :=
  ∀ (specOf : Nat → KVCacheSpec) (sinkBlocks : List Nat) (s : KVState (List β × Nat) Row),
    CachingRun fns hashBlockSize served specOf sinkBlocks s →
  ∀ (r : Request (List β)) (q : CacheHit.Search β) (maxLength : Nat) (rows : List (List Nat)), served r →
    q.blockPool = s.pool → q.blockHashes = groupHashes fns hashBlockSize r q.kvCacheSpec.blockSize →
    (∀ g ∈ q.kvCacheGroupIds, specOf g = q.kvCacheSpec) → 0 < q.kvCacheSpec.blockSize →
    hashBlockSize ∣ q.kvCacheSpec.blockSize → q.findLongestCacheHit maxLength = .ok rows →
  ∀ (k b : Nat) (row : List Nat), rows[k]? = some row → b ∈ row → b ≠ s.pool.nullBlock →
    MayServe fns hashBlockSize served specOf s r q.kvCacheSpec k b

/-- In every run, so does the search of a hybrid coordinator, for each of its groups. -/
def HybridHitsIsolated : Prop :=
  ∀ (kvCacheGroups : List KVCacheSpec) (useEagle : Bool) (c : HybridKVCacheCoordinator),
    HybridKVCacheCoordinator.init kvCacheGroups hashBlockSize useEagle 1 1 = .ok c →
    (∀ spec ∈ kvCacheGroups, 0 < spec.blockSize) →
  ∀ (specOf : Nat → KVCacheSpec) (sinkBlocks : List Nat) (s : KVState (List β × Nat) Row),
    CachingRun fns hashBlockSize served specOf sinkBlocks s →
    (∀ g spec, kvCacheGroups[g]? = some spec → specOf g = spec) →
  ∀ (r : Request (List β)) (maxLength : Nat) (groups : List (List Nat)) (hitLength : Nat), served r →
    c.findLongestCacheHit s.pool (scratchBlockHashes fns hashBlockSize r) maxLength = .ok (groups, hitLength) →
  ∀ (g k b : Nat) (spec : KVCacheSpec) (blocks : List Nat), kvCacheGroups[g]? = some spec →
    groups[g]? = some blocks → blocks[k]? = some b → b ≠ s.pool.nullBlock →
    MayServe fns hashBlockSize served specOf s r spec k b

/-- Any two of the requests are told apart in every block that is full in both, and their items stand in order. -/
structure AllToldApart : Prop where
  inOrder : ∀ r, served r → InOrder r.mmFeatures
  toldApart : ∀ r r' i, served r → served r' → i < r.numTokens / hashBlockSize → i < r'.numTokens / hashBlockSize →
    ToldApart hashBlockSize r r' i

variable {fns hashBlockSize served specOf} {sinkBlocks : List Nat} {s s' : KVState (List β × Nat) Row}

theorem CachingRun.reachable (h : CachingRun fns hashBlockSize served specOf sinkBlocks s) :
    PoolRuns.Reachable sinkBlocks s := by
  induction h with
  | start h => exact .start h
  | step _ henabled _ hstep ih => exact .step ih henabled hstep

/-- A step gives a block a hash only by caching it. -/
theorem blockHash_of_step {cfg : BlockPool.Config} {l : List Nat} (h : s.Ok cfg l)
    {op : PoolRuns.Op (List β × Nat) Row} (henabled : PoolRuns.Enabled cfg.sinkBlocks s op)
    (hstep : PoolRuns.step s op = .ok s') {b : Nat} {key : List β × Nat}
    (hhash : (s'.pool.blocks b).blockHash = some key) :
    (s.pool.blocks b).blockHash = some key ∨
      ∃ (row : Row) (numBlockHashes numFullBlocks : Nat) (blockHashes : List (List β × Nat)) (k : Nat),
        op = .cacheFullBlocks row numBlockHashes numFullBlocks blockHashes ∧
          (s.blocksOf row)[k]? = some b ∧ blockHashes[k]? = some key := by
  cases op with
  | getNewBlocks row n =>
    simp only [PoolRuns.Enabled, h.pool.getNumFreeBlocks, Nat.cast_le] at henabled
    obtain ⟨s'', hrun, -, -, -, -, hnew, hold⟩ := h.appendNewBlocks (r := row) henabled
    simp only [PoolRuns.step, hrun] at hstep
    cases hstep
    by_cases hb : b ∈ l.take n
    · rw [hnew b hb] at hhash
      cases hhash
    · exact Or.inl ((hold b hb).2 ▸ hhash)
  | touch row n hits =>
    obtain ⟨hnil, hcaching, hvalid, hnd⟩ := henabled
    rw [h.pool.enableCaching] at hcaching
    rw [h.pool.nullBlock] at hvalid hnd
    rw [h.pool.numGpuBlocks] at hvalid
    obtain ⟨s'', hrun, -, -, -, -, -, hsame⟩ := h.addComputedBlocks hnil n (fun b hb => by
      by_cases h0 : b = 0
      · exact Or.inl h0
      · exact Or.inr ⟨h0, hvalid b hb h0⟩) hnd hcaching
    rw [PoolRuns.step, hrun] at hstep
    cases hstep
    exact Or.inl (hsame b ▸ hhash)
  | cacheFullBlocks row nh n hashes =>
    obtain ⟨hcaching, hnum, hlen⟩ := henabled
    rw [h.pool.enableCaching] at hcaching
    obtain ⟨s'', hrun, -, -, -, -, hout, hin⟩ := h.cacheBlocks (r := row) hcaching hnum hlen
    rw [PoolRuns.step, hrun] at hstep
    cases hstep
    by_cases hb : b ∈ ((s.blocksOf row).take n).drop (s.cachedOf row) ∧ b ≠ 0
    · obtain ⟨t, ht⟩ := List.mem_iff_getElem?.mp hb.1
      rw [List.getElem?_drop] at ht
      have hlt : s.cachedOf row + t < n := by
        have hshort := (List.getElem?_eq_some_iff.mp ht).1
        rw [List.length_take] at hshort
        omega
      rw [List.getElem?_take_of_lt hlt] at ht
      have hkey := List.getElem?_eq_getElem (hlt.trans_le hlen)
      have hnew := hin _ b _ hb.2 (Nat.le_add_right _ t) hlt ht hkey
      rw [hhash] at hnew
      exact Or.inr ⟨row, nh, n, hashes, _, rfl, ht, hkey.trans hnew.symm⟩
    · rw [not_and_or, not_not] at hb
      exact Or.inl (hout b hb ▸ hhash)
  | freeBlocks row =>
    obtain ⟨s'', hrun, -, -, -, -, -, hsame⟩ := h.free row
    rw [PoolRuns.step, hrun] at hstep
    cases hstep
    exact Or.inl (hsame b ▸ hhash)
  | removeSkippedBlocks row n =>
    obtain ⟨s'', removed, hrun, -, -, -, -, -, -, hsame⟩ := h.removeSkippedBlocks row n
    rw [PoolRuns.step, hrun] at hstep
    cases hstep
    exact Or.inl (hsame b ▸ hhash)
  | evictBlocks ids =>
    simp only [PoolRuns.Enabled, h.pool.numGpuBlocks] at henabled
    obtain ⟨pool, hrun, -, -, hevict⟩ := h.pool.evictBlocks henabled
    rw [PoolRuns.step, KVState.evictBlocks, hrun] at hstep
    cases hstep
    rw [hevict] at hhash
    split at hhash
    · cases hhash
    · exact Or.inl hhash
  | resetPrefixCache =>
    obtain ⟨-, -, hreset⟩ := h.pool.resetPrefixCache
    cases hstep
    rw [show (s.resetPrefixCache.2.pool.blocks b).blockHash = _ from hreset b] at hhash
    split at hhash
    · cases hhash
    · exact Or.inl hhash

/-- Every hash in the pool is one of a served request. -/
theorem CachingRun.carries (h : CachingRun fns hashBlockSize served specOf sinkBlocks s) {b : Nat}
    {key : List β × Nat} (hhash : (s.pool.blocks b).blockHash = some key) : ∃ (r : Request (List β)) (k : Nat),
      served r ∧ (groupHashes fns hashBlockSize r (specOf key.2).blockSize)[k]? = some key.1 := by
  induction h with
  | start h =>
    rw [(PoolRuns.start_spec h).2 b] at hhash
    cases hhash
  | step h henabled hcaches hstep ih =>
    obtain ⟨cfg, l, rfl, hok⟩ := h.reachable.ok
    rcases blockHash_of_step hok henabled hstep hhash with hold | ⟨row, nh, n, hashes, k, rfl, -, hkey⟩
    · exact ih hold
    · obtain ⟨r, hr, rfl⟩ := hcaches
      rw [List.getElem?_map] at hkey
      obtain ⟨blockHash, hblock, rfl⟩ := Option.map_eq_some_iff.mp hkey
      exact ⟨r, k, hr, hblock⟩

variable {r r' : Request (List β)}

omit [DecidableEq β] in
/-- The hash of a block of a group joins the block hashes in it. -/
theorem groupHashes_getElem? (hbs : 0 < hashBlockSize) {blockSize k : Nat} {h : List β}
    (hk : (groupHashes fns hashBlockSize r blockSize)[k]? = some h) :
    (k + 1) * (blockSize / hashBlockSize) ≤ r.numTokens / hashBlockSize ∧
      h = ((List.range (blockSize / hashBlockSize)).map fun t =>
        blockHash fns hashBlockSize r (k * (blockSize / hashBlockSize) + t)).flatten := by
  rw [groupHashes, scratchBlockHashes_eq_chain fns hbs, chain_eq_map, CacheHit.getBlockHashes] at hk
  split at hk
  case isTrue heq =>
    obtain ⟨hlt, rfl⟩ := List.getElem?_eq_some_iff.mp hk
    rw [List.length_map, List.length_range] at hlt
    rw [heq, Nat.div_self hbs, Nat.mul_one, Nat.mul_one]
    refine ⟨hlt, ?_⟩
    simp
  case isFalse =>
    set scale := blockSize / hashBlockSize
    unfold CacheHit.blockHashListWithBlockSize at hk
    rw [List.getElem?_map, List.length_map, List.length_range, Option.map_eq_some_iff] at hk
    obtain ⟨idx, hidx, rfl⟩ := hk
    obtain ⟨hlt, rfl⟩ := List.getElem?_eq_some_iff.mp hidx
    rw [List.length_range] at hlt
    rw [List.getElem_range]
    have hle : (k + 1) * scale ≤ r.numTokens / hashBlockSize :=
      (Nat.mul_le_mul_right _ hlt).trans (Nat.div_mul_le_self _ _)
    refine ⟨hle, ?_⟩
    rw [Nat.succ_mul] at hle
    congr 1
    rw [← List.map_drop, ← List.map_take, List.range_eq_range', List.drop_range', Nat.zero_add, Nat.mul_one,
      List.take_range'_of_length_ge (by omega), List.range'_eq_map_range, List.map_map]
    rfl

omit [DecidableEq β] in
theorem length_blockHash {w : Nat} (hwidth : ∀ x, (fns.hashFunction x).length = w) (i : Nat) :
    (blockHash fns hashBlockSize r i).length = w := by
  rw [blockHash, List.range_succ, List.map_append, List.foldl_append]
  exact hwidth _

omit [DecidableEq β] in
/-- As all hashes have one width, the hash of a block of a group commits to its index and to the last hash in it. -/
theorem blockHash_eq_of_groupHash_eq (hbs : 0 < hashBlockSize) (hinj : Function.Injective fns.hashFunction)
    (hseed : ∀ x, fns.hashFunction x ≠ fns.noneHash) {w : Nat} (hwidth : ∀ x, (fns.hashFunction x).length = w)
    {blockSize k j : Nat} (hpos : 0 < blockSize) (hdvd : hashBlockSize ∣ blockSize) {h : List β}
    (hk : (groupHashes fns hashBlockSize r blockSize)[k]? = some h)
    (hj : (groupHashes fns hashBlockSize r' blockSize)[j]? = some h) :
    j = k ∧ (k + 1) * (blockSize / hashBlockSize) - 1 < r.numTokens / hashBlockSize ∧
      (k + 1) * (blockSize / hashBlockSize) - 1 < r'.numTokens / hashBlockSize ∧
      blockHash fns hashBlockSize r ((k + 1) * (blockSize / hashBlockSize) - 1) =
        blockHash fns hashBlockSize r' ((k + 1) * (blockSize / hashBlockSize) - 1) := by
  obtain ⟨hle, hflat⟩ := groupHashes_getElem? hbs hk
  obtain ⟨hle', hflat'⟩ := groupHashes_getElem? hbs hj
  have hscale : 0 < blockSize / hashBlockSize := Nat.div_pos (Nat.le_of_dvd hpos hdvd) hbs
  set scale := blockSize / hashBlockSize
  have hlists := List.eq_iff_flatten_eq.mpr ⟨hflat.symm.trans hflat', by
    simp only [List.map_map, Function.comp_def, length_blockHash hwidth]⟩
  have hhash := List.map_inj_left.mp hlists (scale - 1) (List.mem_range.mpr (by omega))
  have hidx := index_eq_of_blockHash_eq hinj hseed hhash
  obtain rfl : j = k := Nat.eq_of_mul_eq_mul_right hscale (by omega)
  have hlast : (j + 1) * scale - 1 = j * scale + (scale - 1) := by
    rw [Nat.succ_mul]
    omega
  rw [Nat.succ_mul] at hle hle'
  refine ⟨rfl, by rw [hlast]; omega, by rw [hlast]; omega, ?_⟩
  rw [hlast]
  exact hhash

theorem mem_stored_of_getOneBlock {κ : Type} {m : BlockHashToBlockMap κ} {key : κ} {b : Nat}
    (h : m.getOneBlock key = some b) : b ∈ m.stored key := by
  unfold BlockHashToBlockMap.getOneBlock at h
  unfold BlockHashToBlockMap.stored
  cases hc : m.cache key with
  | none =>
    rw [hc] at h
    cases h
  | some v =>
    rw [hc] at h
    cases v with
    | block a =>
      obtain rfl := Option.some.inj h
      exact List.mem_singleton_self a
    | dict s => exact List.mem_of_head? h

theorem exists_of_mem_mapM {α γ : Type} {f : α → Option γ} {l : List α} {out : List γ} (h : l.mapM f = some out)
    {y : γ} (hy : y ∈ out) : ∃ x ∈ l, f x = some y := by
  induction l generalizing out with
  | nil =>
    obtain rfl : out = [] := by simpa using h.symm
    exact absurd hy List.not_mem_nil
  | cons x l ih =>
    rw [List.mapM_cons] at h
    obtain ⟨y', hy', h⟩ := Option.bind_eq_some_iff.mp h
    obtain ⟨rest, hrest, h⟩ := Option.bind_eq_some_iff.mp h
    obtain rfl : y' :: rest = out := by simpa using h
    rcases List.mem_cons.mp hy with rfl | hy
    · exact ⟨x, List.mem_cons_self, hy'⟩
    · obtain ⟨x', hx', hf⟩ := ih hrest hy
      exact ⟨x', List.mem_cons_of_mem x hx', hf⟩

/-- What is cached at a position carries the hash at that position. -/
theorem exists_hash_of_cachedAt {q : CacheHit.Search β} (hreach : PoolRuns.Reachable sinkBlocks s)
    (hpool : q.blockPool = s.pool) {k b : Nat} {row : List Nat} (hcached : q.cachedAt k = some row) (hb : b ∈ row) :
    ∃ h g, q.blockHashes[k]? = some h ∧ g ∈ q.kvCacheGroupIds ∧ (s.pool.blocks b).blockHash = some (h, g) := by
  obtain ⟨h, hh, hblocks⟩ := Option.bind_eq_some_iff.mp hcached
  obtain ⟨key, hkey, hone⟩ := exists_of_mem_mapM hblocks hb
  obtain ⟨g, hg, rfl⟩ := List.mem_map.mp hkey
  refine ⟨h, g, hh, hg, ?_⟩
  rw [← ((PoolRuns.blockPool_invariant hreach).1).cached, ← hpool]
  exact mem_stored_of_getOneBlock hone

section

variable (hbs : 0 < hashBlockSize) (hinj : Function.Injective fns.hashFunction)
  (hembeds : Function.Injective fns.embedsHash) (hseed : ∀ x, fns.hashFunction x ≠ fns.noneHash) {w : Nat}
  (hwidth : ∀ x, (fns.hashFunction x).length = w) (hall : AllToldApart hashBlockSize served)
include hbs hinj hembeds hseed hwidth hall

/-- Where the requests are told apart, a block that is found for one of them may serve it. -/
theorem mayServe_of_cachedAt (hs : CachingRun fns hashBlockSize served specOf sinkBlocks s) (hr : served r)
    {q : CacheHit.Search β} (hpool : q.blockPool = s.pool)
    (hhashes : q.blockHashes = groupHashes fns hashBlockSize r q.kvCacheSpec.blockSize)
    (hspecs : ∀ g ∈ q.kvCacheGroupIds, specOf g = q.kvCacheSpec) (hpos : 0 < q.kvCacheSpec.blockSize)
    (hdvd : hashBlockSize ∣ q.kvCacheSpec.blockSize) {k b : Nat} {row : List Nat} (hcached : q.cachedAt k = some row)
    (hb : b ∈ row) : MayServe fns hashBlockSize served specOf s r q.kvCacheSpec k b := by
  obtain ⟨h, g, hk, hg, hhash⟩ := exists_hash_of_cachedAt hs.reachable hpool hcached hb
  rw [hhashes] at hk
  constructor
  · obtain ⟨r', j, hr', hj⟩ := hs.carries hhash
    rw [hspecs g hg] at hj
    obtain ⟨rfl, -⟩ := blockHash_eq_of_groupHash_eq hbs hinj hseed hwidth hpos hdvd hk hj
    exact ⟨r', hr', h, g, by rwa [hspecs g hg], hhash⟩
  · rintro r' j hr' ⟨h', g', hj, hhash'⟩
    rw [hhash] at hhash'
    obtain ⟨rfl, rfl⟩ := Prod.mk.inj (Option.some.inj hhash')
    rw [hspecs g hg] at hj
    obtain ⟨rfl, hi, hi', heq⟩ := blockHash_eq_of_groupHash_eq hbs hinj hseed hwidth hpos hdvd hk hj
    exact ⟨rfl, sameContent_of_blockHash_eq hbs hembeds (hall.inOrder r hr) (hall.inOrder r' hr') hinj
      (hall.toldApart r r' _ hr hr' hi hi') heq⟩

theorem managerHitsIsolated_of_toldApart : ManagerHitsIsolated fns hashBlockSize served := by
  intro specOf sinkBlocks s hs r q maxLength rows hr hpool hhashes hspecs hpos hdvd hrun k b row hrow hb hnull
  rcases CacheHit.Search.fromCache_of_findLongestCacheHit hrun k row hrow with rfl | hcached
  · obtain ⟨-, -, rfl⟩ := List.mem_map.mp hb
    exact absurd (congrArg BlockPool.nullBlock hpool) hnull
  · exact mayServe_of_cachedAt hbs hinj hembeds hseed hwidth hall hs hr hpool hhashes hspecs hpos hdvd hcached hb

theorem hybridHitsIsolated_of_toldApart : HybridHitsIsolated fns hashBlockSize served := by
  intro kvCacheGroups useEagle c hinit hpos specOf sinkBlocks s hs hspecs r maxLength groups hitLength hr hrun
    i k b spec blocks hspec hblocks hb hnull
  obtain ⟨hok, rfl, rfl, -⟩ := HybridKVCacheCoordinator.init_ok hinit
  obtain ⟨g, hg, hmem, row, hcached, hbrow⟩ :=
    HybridKVCacheCoordinator.cachedAt_of_findLongestCacheHit hrun hblocks hb hnull
  -- the group has the spec of the attention group it was searched with
  obtain rfl : spec = g.kvCacheSpec := by
    have hi := (hok.split.mem_ids g hg i).mp hmem
    rw [hspec] at hi
    exact Option.some.inj hi
  exact mayServe_of_cachedAt hbs hinj hembeds hseed hwidth hall hs hr (q := c.search s.pool _ g) rfl rfl
    (fun j hj => hspecs j _ ((hok.split.mem_ids g hg j).mp hj)) (hpos _ (hok.spec_mem hg))
    (hok.hashDvd _ (hok.spec_mem hg)) hcached hbrow

end

end Hits

/-! ## Two tenants -/

/-- Strings as lists of code points. -/
def keyCode : ExtraKey (List Nat) → List Nat ⊕ List Nat
  | .str s => .inl (s.toList.map Char.toNat)
  | .digest d => .inr d

/-- Hash functions without collisions: they number what they hash. -/
def numbering : HashFunctions (List Nat) where
  noneHash := []
  hashFunction x := [Encodable.encode (x.1, x.2.1, x.2.2.map (List.map keyCode))]
  embedsHash rows := [Encodable.encode rows]

theorem keyCode_injective : Function.Injective keyCode := by
  have hchars : Function.Injective (List.map Char.toNat) :=
    List.map_injective_iff.mpr fun c c' h => Char.ext (UInt32.toNat_inj.mp h)
  intro x y h
  cases x with
  | str s =>
    cases y with
    | str s' => rw [String.toList_inj.mp (hchars (Sum.inl.inj h))]
    | digest d => cases h
  | digest d =>
    cases y with
    | str s => cases h
    | digest d' => rw [Sum.inr.inj h]

theorem numbering_injective : Function.Injective numbering.hashFunction := by
  rintro ⟨parent, tokens, keys⟩ ⟨parent', tokens', keys'⟩ h
  have hcode := Encodable.encode_injective (List.singleton_injective h)
  simp only [Prod.mk.injEq] at hcode
  obtain ⟨rfl, rfl, hkeys⟩ := hcode
  rw [Option.map_injective (List.map_injective_iff.mpr keyCode_injective) hkeys]

theorem numbering_embeds_injective : Function.Injective numbering.embedsHash :=
  fun _ _ h => Encodable.encode_injective (List.singleton_injective h)

/-- A request for the prompt `[1, 2, 3, 4]`. -/
def tenantRequest (adapter cacheSalt : Option String) (items : List MultiModalFeatureSpec) : Request (List Nat) where
  requestId := 0
  promptTokenIds := some [1, 2, 3, 4]
  numPromptTokens := 4
  allTokenIds := [1, 2, 3, 4]
  mmFeatures := items
  loraRequest := adapter.map fun name => ⟨name, 1⟩
  cacheSalt := cacheSalt

end Yuan.Core
