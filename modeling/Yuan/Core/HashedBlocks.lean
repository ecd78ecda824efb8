import Yuan.Core.IncrementalHashing

/-!
# What the hash of a block was computed from

`request_block_hasher` keeps the hashes only. A `HashedBlock` is what went into one of them, with the place where
that call of the hasher started: a call that starts at the first block gives each block the items that a walk over
all items finds in it, a later call looks at the last item only.
-/

namespace Yuan.Core

/-- What went into the hash of a block, and the first position and the items of the call that hashed it. -/
structure HashedBlock (β : Type) where
  parentBlockHash : Option β
  currBlockTokenIds : List Nat
  extraKeys : Option (List (ExtraKey β))
  callStart : Nat
  mmFeatures : List MultiModalFeatureSpec

section Recording

variable {β : Type} (fns : HashFunctions β) (blockSize : Nat)

/-- The hash of the block. -/
def HashedBlock.hash (h : HashedBlock β) : β :=
  hashBlockTokens fns h.parentBlockHash h.currBlockTokenIds h.extraKeys

/-- The loop of `request_block_hasher`, with what goes into each hash. -/
def hashedLoop (r : Request β) (callStart : Nat) : Nat → Nat → Int → Option β → List (HashedBlock β)
  | 0, _, _, _ => []
  | fuel + 1, startTokenIdx, currMmIdx, prevBlockHashValue =>
    let endTokenIdx := startTokenIdx + blockSize
    if endTokenIdx > r.numTokens then []
    else
      let (extraKeys, currMmIdx) :=
        generateBlockHashExtraKeys fns r startTokenIdx endTokenIdx currMmIdx
      let block : HashedBlock β := {
        parentBlockHash := prevBlockHashValue
        currBlockTokenIds := (r.allTokenIds.take endTokenIdx).drop startTokenIdx
        extraKeys
        callStart
        mmFeatures := r.mmFeatures }
      block :: hashedLoop r callStart fuel endTokenIdx currMmIdx (some (block.hash fns))

/-- The blocks that `request_block_hasher` hashes. -/
def newlyHashed (r : Request β) : List (HashedBlock β) :=
  let startTokenIdx := r.blockHashes.length * blockSize
  if startTokenIdx + blockSize > r.numTokens then []
  else
    let currMmIdx := if startTokenIdx > 0 then -1 else 0
    hashedLoop fns blockSize r startTokenIdx r.numTokens startTokenIdx currMmIdx r.blockHashes.getLast?

theorem map_hash_hashedLoop (r : Request β) (callStart fuel startTokenIdx : Nat) (currMmIdx : Int) (prev : Option β) :
    (hashedLoop fns blockSize r callStart fuel startTokenIdx currMmIdx prev).map (HashedBlock.hash fns) =
      hashLoop fns blockSize r fuel startTokenIdx currMmIdx prev := by
  induction fuel generalizing startTokenIdx currMmIdx prev with
  | zero => rfl
  | succ fuel ih =>
    unfold hashedLoop hashLoop
    by_cases hfull : startTokenIdx + blockSize > r.numTokens
    · simp only [if_pos hfull, List.map_nil]
    · simp only [if_neg hfull, List.map_cons, ih]
      rfl

/-- The hasher hashes what is recorded. -/
theorem map_hash_newlyHashed (r : Request β) :
    (newlyHashed fns blockSize r).map (HashedBlock.hash fns) = requestBlockHasher fns blockSize r := by
  unfold newlyHashed requestBlockHasher
  dsimp only
  split
  · rfl
  · exact map_hash_hashedLoop fns blockSize r _ _ _ _ _

end Recording

/-! ## The items of a call -/

/-- The last item, if a call that starts at `s` finds it in the block: the item is reached, and does not end before
the first block of the call, nor where a later one starts. -/
def lastItemKeys (fs : List MultiModalFeatureSpec) (s a b : Nat) : List String :=
  match fs.getLast? with
  | none => []
  | some last =>
    if last.offset < b ∧ (if a = s then a ≤ last.stop else passed a last = false) then [last.identifier] else []

/-- The identifiers that a call which starts at `s` finds in a block. -/
def hasherKeys (fs : List MultiModalFeatureSpec) (s a b : Nat) : List String :=
  if s = 0 then itemKeys fs a b else lastItemKeys fs s a b

/-- The item index of a call that starts at `s`, in front of the block at `a`. -/
def IndexFits (fs : List MultiModalFeatureSpec) (s a : Nat) (i : Int) : Prop :=
  if s = 0 then ∀ e, a ≤ e → IndexOk fs a e (normIndex fs i)
  else ∀ last, fs.getLast? = some last → last.stop < a ∨
    (if s < a ∧ passed a last = true then normIndex fs i = fs.length else normIndex fs i + 1 = fs.length)

section Index

variable {fs : List MultiModalFeatureSpec} {s a b : Nat} {i : Int} {last : MultiModalFeatureSpec}

theorem normIndex_natCast (fs : List MultiModalFeatureSpec) (n : Nat) : normIndex fs (n : Int) = n := by
  rfl

theorem indexFits_start (fs : List MultiModalFeatureSpec) (s : Nat) :
    IndexFits fs s s (if s > 0 then -1 else 0) := by
  unfold IndexFits
  by_cases hs : s = 0
  · subst hs
    exact fun e _ => indexOk_zero fs e
  · rw [if_neg hs, if_pos (by omega)]
    intro last hlast
    right
    rw [if_neg (by omega)]
    have hne : fs ≠ [] := by
      rintro rfl
      cases hlast
    have hlength := List.length_pos_iff.mpr hne
    unfold normIndex
    rw [if_pos (by decide)]
    omega

/-- A walk that stands at the last item. -/
theorem drop_of_last {n : Nat} (hlast : fs.getLast? = some last) (hn : n + 1 = fs.length) : fs.drop n = [last] := by
  obtain ⟨init, rfl⟩ := List.getLast?_eq_some_iff.mp hlast
  rw [List.length_append, List.length_singleton] at hn
  have hn : n = init.length := by omega
  rw [hn, List.drop_left]

/-- The loop at the last item. -/
theorem mmLoop_last (ha : ¬ last.stop < a) (n : Nat) :
    mmLoop a b [last] n =
      (if last.offset < b then [last.identifier] else [], if passed b last = true then n + 1 else n) := by
  unfold mmLoop passed
  by_cases hoffset : b > last.offset
  · rw [if_pos hoffset, if_neg (by omega), if_pos hoffset]
    by_cases hend : b ≥ last.stop
    · simp only [hoffset, hend]
      rfl
    · simp only [hend, and_false, decide_false, Bool.false_eq_true, if_false]
  · rw [if_neg hoffset]
    simp only [hoffset, false_and, decide_false, Bool.false_eq_true, if_false]

theorem passed_of_stop_lt (h : last.stop < a) : passed a last = true := by
  have hle : last.offset ≤ last.stop := Nat.le_add_right _ _
  simp only [passed, decide_eq_true_eq]
  omega

/-- A later call: the last item only. -/
theorem genMmExtraHashKeys_last (hlast : fs.getLast? = some last) (hsa : s ≤ a) (hab : a < b) (h : last.stop < a ∨
      (if s < a ∧ passed a last = true then normIndex fs i = fs.length else normIndex fs i + 1 = fs.length)) :
    (genMmExtraHashKeys fs a b i).1 = lastItemKeys fs s a b ∧
      (last.stop < b ∨ (if s < b ∧ passed b last = true then normIndex fs (genMmExtraHashKeys fs a b i).2 = fs.length
        else normIndex fs (genMmExtraHashKeys fs a b i).2 + 1 = fs.length)) := by
  have hkeys : lastItemKeys fs s a b =
      if last.offset < b ∧ (if a = s then a ≤ last.stop else passed a last = false) then [last.identifier] else [] := by
    unfold lastItemKeys
    rw [hlast]
  rw [hkeys]
  by_cases ha : last.stop < a
  · -- the item ends before the block
    have hgen : genMmExtraHashKeys fs a b i = ([], i) := by
      unfold genMmExtraHashKeys
      simp only [hlast, if_pos ha]
    rw [hgen]
    refine ⟨?_, .inl (by omega)⟩
    rw [if_neg]
    rintro ⟨-, hin⟩
    rw [passed_of_stop_lt ha] at hin
    split at hin
    · omega
    · cases hin
  · rw [genMm_eq hlast ha]
    replace h := h.resolve_left ha
    by_cases hdone : s < a ∧ passed a last = true
    · -- the call is behind the item
      rw [if_pos hdone] at h
      have hpassed : passed b last = true := passed_mono hab.le hdone.2
      rw [h, List.drop_length]
      constructor
      · rw [if_neg]
        · rfl
        · rintro ⟨-, hin⟩
          rw [if_neg (by omega), hdone.2] at hin
          cases hin
      · right
        rw [if_pos ⟨by omega, hpassed⟩]
        exact normIndex_natCast fs fs.length
    · rw [if_neg hdone] at h
      rw [drop_of_last hlast h, mmLoop_last ha]
      rw [normIndex_natCast]
      constructor
      · have hin : (if a = s then a ≤ last.stop else passed a last = false) := by
          split
          · omega
          · rw [Bool.eq_false_iff]
            exact fun hpassed => hdone ⟨by omega, hpassed⟩
        simp only [hin, and_true]
      · right
        by_cases hpassed : passed b last = true
        · rw [if_pos ⟨by omega, hpassed⟩, if_pos hpassed, h]
        · rw [if_neg fun hb => hpassed hb.2, if_neg hpassed, h]

/-- A block gets the items of its call, and the index fits the next block. -/
theorem genMmExtraHashKeys_fits (hsa : s ≤ a) (hab : a < b) (h : IndexFits fs s a i) :
    (genMmExtraHashKeys fs a b i).1 = hasherKeys fs s a b ∧ IndexFits fs s b (genMmExtraHashKeys fs a b i).2 := by
  unfold IndexFits at h ⊢
  unfold hasherKeys
  by_cases hs : s = 0
  · simp only [if_pos hs] at h ⊢
    exact ⟨(genMmExtraHashKeys_step (h b hab.le) hab.le le_rfl).1, fun e hbe =>
      (genMmExtraHashKeys_step (h e (hab.le.trans hbe)) hab.le hbe).2⟩
  · simp only [if_neg hs] at h ⊢
    cases hlast : fs.getLast? with
    | none =>
      have hgen : genMmExtraHashKeys fs a b i = ([], i) := by
        unfold genMmExtraHashKeys
        simp only [hlast]
      rw [hgen]
      unfold lastItemKeys
      rw [hlast]
      exact ⟨rfl, fun last hlast => by cases hlast⟩
    | some last =>
      obtain ⟨hkeys, hnext⟩ := genMmExtraHashKeys_last hlast hsa hab (h last hlast)
      refine ⟨hkeys, fun last' hlast' => ?_⟩
      cases hlast'
      exact hnext

end Index

/-! ## The blocks of a request -/

section Blocks

variable {β : Type} (fns : HashFunctions β) (blockSize : Nat)

/-- Block `i` was hashed with the tokens that the request has there, and with the items of its call. -/
structure HashedAt (r : Request β) (i : Nat) (h : HashedBlock β) : Prop where
  full : i * blockSize + blockSize ≤ r.numTokens
  tokens : h.currBlockTokenIds = (r.allTokenIds.take (i * blockSize + blockSize)).drop (i * blockSize)
  keys : h.extraKeys = extraKeys fns r (i * blockSize) (i * blockSize + blockSize)
    (hasherKeys h.mmFeatures h.callStart (i * blockSize) (i * blockSize + blockSize))

/-- Each block is hashed behind the one before it. -/
def Linked : Option β → List (HashedBlock β) → Prop
  | _, [] => True
  | prev, h :: hs => h.parentBlockHash = prev ∧ Linked (some (h.hash fns)) hs

/-- The hash that the next block is hashed behind. -/
def lastHash (hashed : List (HashedBlock β)) : Option β := (hashed.map (HashedBlock.hash fns)).getLast?

variable {fns blockSize} {r : Request β} {hashed hashed' : List (HashedBlock β)}

theorem linked_append {prev : Option β} :
    Linked fns prev (hashed ++ hashed') ↔
      Linked fns prev hashed ∧ Linked fns ((lastHash fns hashed).or prev) hashed' := by
  induction hashed generalizing prev with
  | nil => exact ⟨fun h => ⟨trivial, h⟩, And.right⟩
  | cons h hashed ih =>
    have hlast : (lastHash fns (h :: hashed)).or prev = (lastHash fns hashed).or (some (h.hash fns)) := by
      unfold lastHash
      rw [List.map_cons, List.getLast?_cons]
      cases (hashed.map (HashedBlock.hash fns)).getLast? <;> rfl
    rw [hlast]
    show _ ∧ Linked fns (some (h.hash fns)) (hashed ++ hashed') ↔ (_ ∧ Linked fns (some (h.hash fns)) hashed) ∧ _
    rw [ih, and_assoc]

theorem Linked.getElem? {prev : Option β} (h : Linked fns prev hashed) {i : Nat} {b : HashedBlock β}
    (hb : hashed[i]? = some b) :
    b.parentBlockHash = if i = 0 then prev else (hashed[i - 1]?).map (HashedBlock.hash fns) := by
  induction hashed generalizing prev i with
  | nil => cases hb
  | cons c hashed ih =>
    obtain ⟨hparent, hrest⟩ := h
    cases i with
    | zero =>
      cases hb
      exact hparent
    | succ i =>
      rw [ih hrest hb, if_neg (Nat.succ_ne_zero i), Nat.add_sub_cancel]
      cases i with
      | zero => rfl
      | succ i => rw [if_neg (Nat.succ_ne_zero i), Nat.add_sub_cancel, List.getElem?_cons_succ]

theorem hashedLoop_spec (hbs : 0 < blockSize) {s fuel k : Nat} {i : Int} {prev : Option β} (hs : s ≤ k * blockSize)
    (hfits : IndexFits r.mmFeatures s (k * blockSize) i) :
    Linked fns prev (hashedLoop fns blockSize r s fuel (k * blockSize) i prev) ∧
      ∀ j h, (hashedLoop fns blockSize r s fuel (k * blockSize) i prev)[j]? = some h →
        HashedAt fns blockSize r (k + j) h := by
  induction fuel generalizing k i prev with
  | zero => exact ⟨trivial, fun j h hj => by cases hj⟩
  | succ fuel ih =>
    unfold hashedLoop
    by_cases hfull : k * blockSize + blockSize > r.numTokens
    · rw [if_pos hfull]
      exact ⟨trivial, fun j h hj => by cases hj⟩
    · rw [if_neg hfull]
      obtain ⟨hkeys, hnext⟩ := genMmExtraHashKeys_fits hs (Nat.lt_add_of_pos_right hbs) hfits
      have hsucc : (k + 1) * blockSize = k * blockSize + blockSize := by rw [Nat.add_mul, Nat.one_mul]
      rw [← hsucc] at hnext
      obtain ⟨hlinked, hblocks⟩ := @ih (k + 1) _
        (some (HashedBlock.hash fns ⟨prev,
          (r.allTokenIds.take (k * blockSize + blockSize)).drop (k * blockSize),
          extraKeys fns r (k * blockSize) (k * blockSize + blockSize)
            (genMmExtraHashKeys r.mmFeatures (k * blockSize) (k * blockSize + blockSize) i).1, s, r.mmFeatures⟩))
        (hs.trans (Nat.mul_le_mul_right _ (Nat.le_succ k))) hnext
      rw [hsucc] at hlinked hblocks
      refine ⟨⟨rfl, hlinked⟩, fun j h hj => ?_⟩
      cases j with
      | zero =>
        cases hj
        show HashedAt fns blockSize r k _
        exact ⟨by omega, rfl, congrArg (extraKeys fns r (k * blockSize) (k * blockSize + blockSize)) hkeys⟩
      | succ j =>
        rw [show k + (j + 1) = k + 1 + j by omega]
        exact hblocks j h hj

/-- What a call of the hasher hashes, behind the blocks that are hashed. -/
theorem newlyHashed_spec (hbs : 0 < blockSize) (r : Request β) :
    Linked fns r.blockHashes.getLast? (newlyHashed fns blockSize r) ∧
      ∀ j h, (newlyHashed fns blockSize r)[j]? = some h → HashedAt fns blockSize r (r.blockHashes.length + j) h := by
  unfold newlyHashed
  dsimp only
  split
  · exact ⟨trivial, fun j h hj => by cases hj⟩
  · exact hashedLoop_spec hbs le_rfl (indexFits_start _ _)

end Blocks

/-! ## Histories -/

section History

variable {β : Type} (fns : HashFunctions β) (blockSize : Nat)

/-- What an event hashes. -/
def hashedByOp (r : Request β) : HashOp → List (HashedBlock β)
  | .appendOutputTokenIds tokenIds =>
    newlyHashed fns blockSize { r with
      outputTokenIds := r.outputTokenIds ++ tokenIds
      allTokenIds := r.allTokenIds ++ tokenIds }
  | .updateRequestAsSession update => newlyHashed fns blockSize (sessionInput r update)
  | .setNumComputedTokens _ => []

/-- The event deletes no token of a hashed block. -/
def KeepsHashedTokens (r : Request β) : HashOp → Prop
  | .updateRequestAsSession _ =>
    r.blockHashes.length * blockSize ≤ (pyTake r.allTokenIds r.numComputedTokens).length
  | _ => True

/-- The requests that histories lead to, with the blocks hashed on the way. -/
inductive HashedBy : Request β → List (HashedBlock β) → Prop where
  | init (r : Request β) :
      HashedBy (initBlockHashes fns blockSize r) (newlyHashed fns blockSize { r with blockHashes := [] })
  | step {r r' : Request β} {hashed : List (HashedBlock β)} {op : HashOp} (h : HashedBy r hashed)
      (hkeeps : KeepsHashedTokens blockSize r op) (hstep : hashStep fns blockSize r op = .ok r') :
      HashedBy r' (hashed ++ hashedByOp fns blockSize r op)

/-- The hashes of a request are those of its hashed blocks. -/
structure HashesOf (r : Request β) (hashed : List (HashedBlock β)) : Prop where
  hashes : r.blockHashes = hashed.map (HashedBlock.hash fns)
  linked : Linked fns none hashed
  blocks : ∀ i h, hashed[i]? = some h → HashedAt fns blockSize r i h

variable {fns blockSize} {r r' : Request β} {hashed : List (HashedBlock β)}

/-- A block stays hashed as it was while its tokens stay. -/
theorem HashedAt.congr {i : Nat} {h : HashedBlock β} (hat : HashedAt fns blockSize r i h)
    (hlora : r'.loraRequest = r.loraRequest) (hsalt : r'.cacheSalt = r.cacheSalt)
    (hembeds : r'.promptEmbeds = r.promptEmbeds)
    (htokens : r'.allTokenIds.take (i * blockSize + blockSize) = r.allTokenIds.take (i * blockSize + blockSize))
    (hfull : i * blockSize + blockSize ≤ r'.numTokens) : HashedAt fns blockSize r' i h where
  full := hfull
  tokens := by rw [htokens, hat.tokens]
  keys := by
    rw [hat.keys]
    unfold extraKeys genLoraExtraHashKeys genSaltExtraHashKeys genPromptEmbedsExtraHashKeys
    rw [hlora, hsalt, hembeds]

/-- The hasher extends the hashed blocks. -/
theorem hashesOf_update (hbs : 0 < blockSize) (hhashes : r.blockHashes = hashed.map (HashedBlock.hash fns))
    (hlinked : Linked fns none hashed) (hblocks : ∀ i h, hashed[i]? = some h → HashedAt fns blockSize r i h) :
    HashesOf fns blockSize (updateBlockHashes fns blockSize r) (hashed ++ newlyHashed fns blockSize r) := by
  obtain ⟨hnew, hnewBlocks⟩ := @newlyHashed_spec β fns blockSize hbs r
  have hlength : r.blockHashes.length = hashed.length := by rw [hhashes, List.length_map]
  constructor
  case hashes =>
    rw [List.map_append, map_hash_newlyHashed, ← hhashes]
    rfl
  case linked =>
    rw [linked_append]
    refine ⟨hlinked, ?_⟩
    unfold lastHash
    rw [← hhashes, Option.or_none]
    exact hnew
  case blocks =>
    intro i h hi
    have hat : HashedAt fns blockSize r i h := by
      rcases Nat.lt_or_ge i hashed.length with hlt | hge
      · rw [List.getElem?_append_left hlt] at hi
        exact hblocks i h hi
      · rw [List.getElem?_append_right hge] at hi
        have hat := hnewBlocks (i - hashed.length) h hi
        rwa [hlength, Nat.add_sub_cancel' hge] at hat
    exact hat.congr rfl rfl rfl rfl hat.full

/-- In every history the hashes of the request are those of the blocks hashed on the way. -/
theorem HashedBy.hashesOf (hbs : 0 < blockSize) (h : HashedBy fns blockSize r hashed) :
    HashesOf fns blockSize r hashed := by
  induction h with
  | init r =>
    have hinit := @hashesOf_update β fns blockSize { r with blockHashes := [] } [] hbs rfl trivial
      fun i h hi => by cases hi
    exact hinit
  | @step r r' hashed op _ hkeeps hstep ih =>
    have hlength : r.blockHashes.length = hashed.length := by rw [ih.hashes, List.length_map]
    cases op with
    | appendOutputTokenIds tokenIds =>
      cases hstep
      refine hashesOf_update hbs ih.hashes ih.linked fun i h hi => ?_
      have hat := ih.blocks i h hi
      have hle := hat.full
      unfold Request.numTokens at hle
      refine hat.congr rfl rfl rfl (List.take_append_of_le_length hle) ?_
      unfold Request.numTokens
      rw [List.length_append]
      omega
    | updateRequestAsSession update =>
      have hsession : HashesOf fns blockSize (updateBlockHashes fns blockSize (sessionInput r update))
          (hashed ++ newlyHashed fns blockSize (sessionInput r update)) := by
        refine hashesOf_update hbs ih.hashes ih.linked fun i h hi => ?_
        have hlt := (List.getElem?_eq_some_iff.mp hi).1
        have hend : i * blockSize + blockSize ≤ (pyTake r.allTokenIds r.numComputedTokens).length := by
          have hmul := Nat.mul_le_mul_right blockSize (Nat.succ_le_of_lt hlt)
          rw [Nat.succ_mul, ← hlength] at hmul
          exact hmul.trans hkeeps
        refine (ih.blocks i h hi).congr rfl rfl rfl ?_ ?_
        · show ((pyTake r.allTokenIds r.numComputedTokens) ++ update.promptTokenIds.getD []).take _ = _
          rw [List.take_append_of_le_length hend, ← pyTake_take r.allTokenIds, List.take_take, min_eq_left hend]
        · show _ ≤ ((pyTake r.allTokenIds r.numComputedTokens) ++ update.promptTokenIds.getD []).length
          rw [List.length_append]
          omega
      dsimp only [hashStep] at hstep
      unfold updateRequestAsSession at hstep
      split at hstep
      · cases hstep
      · cases hstep
        exact ⟨hsession.hashes, hsession.linked, fun i h hi =>
          (hsession.blocks i h hi).congr rfl rfl rfl rfl (hsession.blocks i h hi).full⟩
    | setNumComputedTokens n =>
      cases hstep
      have hnil : hashed ++ hashedByOp fns blockSize r (.setNumComputedTokens n) = hashed := List.append_nil _
      rw [hnil]
      exact ⟨ih.hashes, ih.linked, fun i h hi => (ih.blocks i h hi).congr rfl rfl rfl rfl (ih.blocks i h hi).full⟩

end History

end Yuan.Core
