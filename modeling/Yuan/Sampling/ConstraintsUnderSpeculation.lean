import Mathlib.Data.List.SplitLengths
import Yuan.Sampling.DraftRows

/-!
# Constraints under speculation

A row of a draft, and the row behind the drafts, should be constrained as plain decoding constrains the row of
its slot when the drafts before it are output tokens.
-/

namespace Yuan.Sampling

section

variable {F : Type} {V : Nat} [FloatOps F]

namespace InputBatch

/-- Slot `i` has its first `n` drafts as output tokens, and no drafts. -/
def extendSlot (b : InputBatch F V) (i n : Nat) : InputBatch F V :=
  { b with slots := b.slots.modify i fun s => { s with outputTokenIds := s.historyAt n, specTokenIds := [] } }

/-- Plain decoding: what becomes of the row of slot `i`, with `n` of its drafts as output tokens. -/
def plainRow (b : InputBatch F V) (i n : Nat) (logits : Logits F V) : Except PyError (Option (Row F V)) := do
  let logits ← Sampler.applyLogitsProcessors logits (b.extendSlot i n).makeSamplingMetadata false
  return logits[i]?

def numDraftTokens (b : InputBatch F V) : List Nat := b.slots.map fun s => s.specTokenIds.length

/-- Neither sampler raises, and each row is that of plain decoding. -/
structure EqualsPlainDecoding (b : InputBatch F V) : Prop where
  drafts : ∀ logits : Logits F V, logits.length = b.numDraftTokens.sum →
    ∃ out, RejectionSampler.applyLogitsProcessors logits b.makeSamplingMetadata b.numDraftTokens = .ok out ∧
      out.length = logits.length ∧
      ∀ i s, b.slots[i]? = some s → ∀ j < s.specTokenIds.length, ∀ plain : Logits F V,
        plain.length = b.slots.length → plain[i]? = logits[(b.numDraftTokens.take i).sum + j]? →
        b.plainRow i j plain = .ok out[(b.numDraftTokens.take i).sum + j]?
  bonus : ∀ logits : Logits F V, logits.length = b.slots.length →
    ∃ out, Sampler.applyLogitsProcessors logits b.makeSamplingMetadata true = .ok out ∧
      out.length = logits.length ∧
      ∀ i s, b.slots[i]? = some s → ∀ plain : Logits F V, plain.length = b.slots.length → plain[i]? = logits[i]? →
        b.plainRow i s.specTokenIds.length plain = .ok out[i]?

/-- The stop tokens of a slot that has too few tokens have a place in the row, and when its drafts would give it
enough, they are masked behind the drafts for another reason. -/
def StopTokensFit (b : InputBatch F V) (s : Slot F V) : Prop :=
  s.outputTokenIds.length < s.minTokens →
    (∀ token ∈ s.allStopTokenIds, InRange V token) ∧
    (s.minTokens ≤ s.outputTokenIds.length + s.specTokenIds.length →
      ∀ t : Fin V, hits s.allStopTokenIds t = true →
        (b.hasAllowedTokenIds = true ∧ s.allowedMask t = true) ∨
          banned s.badWordsTokenIds (s.outputTokenIds ++ s.specTokenIds) t = true)

/-! ## Plain decoding -/

variable {b : InputBatch F V} {s : Slot F V} {i n : Nat}

omit [FloatOps F] in
theorem mem_extendSlot {s' : Slot F V} (hs' : s' ∈ (b.extendSlot i n).slots) :
    ∃ s ∈ b.slots, s' = s ∨ s' = { s with outputTokenIds := s.historyAt n, specTokenIds := [] } := by
  obtain ⟨k, hk⟩ := List.mem_iff_getElem?.mp hs'
  unfold extendSlot at hk
  rw [List.getElem?_modify] at hk
  split at hk
  · obtain ⟨s, hs, rfl⟩ := Option.map_eq_some_iff.mp hk
    exact ⟨s, List.mem_of_getElem? hs, Or.inr rfl⟩
  · obtain ⟨s, hs, rfl⟩ := Option.map_eq_some_iff.mp hk
    exact ⟨s, List.mem_of_getElem? hs, Or.inl rfl⟩

omit [FloatOps F] in
theorem length_extendSlot : (b.extendSlot i n).slots.length = b.slots.length := List.length_modify _ _ _

theorem Valid.extendSlot (hb : b.Valid) (i n : Nat) : (b.extendSlot i n).Valid where
  slots := by
    intro s' hs'
    obtain ⟨s, hs, rfl | rfl⟩ := mem_extendSlot hs'
    · exact hb.slots s' hs
    · have hvalid := hb.slots s hs
      exact
        { hvalid with
          output := hvalid.historyAt n
          spec := fun token h => absurd h (List.not_mem_nil)
          length := (length_historyAt_le s n).trans_lt hvalid.length }
  asked h := by
    have hne := hb.asked h
    rw [← List.length_pos_iff] at hne ⊢
    rwa [length_extendSlot]

omit [FloatOps F] in
theorem stopTokensInRange_iff :
    StopTokensInRange V (minTokensEntry s) ↔
      (s.outputTokenIds.length < s.minTokens → ∀ token ∈ s.allStopTokenIds, InRange V token) := by
  rw [minTokensEntry_eq, StopTokensInRange, Slot.below]
  by_cases hbelow : s.outputTokenIds.length < s.minTokens
  · simp [hbelow]
  · simp [hbelow]

/-- The row of slot `i` becomes what the slot asks for with `n` drafts. -/
theorem plainRow_eq (hb : b.Valid) (hstop : ∀ s ∈ b.slots, StopTokensInRange V (minTokensEntry s))
    (hs : b.slots[i]? = some s) (hn : n ≤ s.specTokenIds.length) {plain : Logits F V}
    (hlen : plain.length = b.slots.length) :
    b.plainRow i n plain = .ok (plain[i]?.map (b.constrain s (s.historyAt n) (s.belowAt n))) := by
  have hstop' : ∀ s' ∈ (b.extendSlot i n).slots, StopTokensInRange V (minTokensEntry s') := by
    intro s' hs'
    obtain ⟨s, hs, rfl | rfl⟩ := mem_extendSlot hs'
    · exact hstop s' hs
    · have h := stopTokensInRange_iff.mp (hstop s hs)
      refine stopTokensInRange_iff.mpr fun hbelow => h ?_
      simp only [Slot.historyAt, List.length_append] at hbelow
      omega
  have hget : (b.extendSlot i n).slots[i]?
      = some { s with outputTokenIds := s.historyAt n, specTokenIds := [] } := by
    unfold InputBatch.extendSlot
    rw [List.getElem?_modify_eq, hs]
    rfl
  have hcall := sampler_applyLogitsProcessors (b := b.extendSlot i n)
    (by rw [length_extendSlot, hlen]) (hb.extendSlot i n) hstop' false
  have hbelow : decide ((s.historyAt n).length < s.minTokens) = s.belowAt n := by
    rw [Slot.historyAt, List.length_append, List.length_take, Nat.min_eq_left hn, Slot.belowAt]
  unfold plainRow
  rw [hcall, ok_bind, List.getElem?_zipWith, hget, ← hbelow]
  cases plain[i]? <;> rfl

/-! ## The rows of the drafts -/

omit [FloatOps F] in
/-- Rows as many as there are drafts fall into blocks. -/
theorem exists_blocks {logits : Logits F V} (hlen : logits.length = b.numDraftTokens.sum) :
    ∃ blocks, Blocks b.slots blocks ∧ blocks.flatten = logits := by
  have hlengths := List.map_splitLengths_length logits b.numDraftTokens hlen.ge
  refine ⟨b.numDraftTokens.splitLengths logits, ?_, List.flatten_splitLengths _ _ hlen.le⟩
  have hsame : List.Forall₂ Eq (b.slots.map fun s => s.specTokenIds.length)
      ((b.numDraftTokens.splitLengths logits).map List.length) := by
    rw [hlengths]
    exact List.forall₂_refl _
  exact (List.forall₂_map_right_iff.mp (List.forall₂_map_left_iff.mp hsame)).imp fun _ _ h => h.symm

omit [FloatOps F] in
theorem lengths_of_blocks {slots : List (Slot F V)} {blocks : List (Logits F V)} (hblocks : Blocks slots blocks) :
    blocks.map List.length = slots.map fun s => s.specTokenIds.length := by
  induction hblocks with
  | nil => rfl
  | cons hlen _ ih => rw [List.map_cons, List.map_cons, ih, hlen]

omit [FloatOps F] in
theorem byDraft_getElem? {f : Slot F V → Nat → Row F V → Row F V} {blocks : List (Logits F V)} {j : Nat}
    (hblocks : Blocks b.slots blocks) (hs : b.slots[i]? = some s) (hj : j < s.specTokenIds.length) :
    (byDraft f b.slots blocks).flatten[(b.numDraftTokens.take i).sum + j]?
      = (blocks.flatten[(b.numDraftTokens.take i).sum + j]?).map (f s j) := by
  have hlengths := lengths_of_blocks hblocks
  have hlengths' := lengths_of_blocks (hblocks.byDraft (f := f))
  have hstart : rowStart blocks i = (b.numDraftTokens.take i).sum := by rw [rowStart, hlengths]; rfl
  have hstart' : rowStart (byDraft f b.slots blocks) i = (b.numDraftTokens.take i).sum := by
    rw [rowStart, hlengths']
    rfl
  obtain ⟨block, hblock, hblockLen⟩ : ∃ block, blocks[i]? = some block ∧ block.length = s.specTokenIds.length := by
    have hget := congrArg (fun lengths => lengths[i]?) hlengths
    simp only [List.getElem?_map, hs, Option.map_some] at hget
    exact Option.map_eq_some_iff.mp hget
  have hblock' : (byDraft f b.slots blocks)[i]? = some (block.mapIdx (f s)) := by
    rw [byDraft, List.getElem?_zipWith, hs, hblock]
  have hrow := getElem?_flatten hblock (hblockLen ▸ hj)
  have hrow' := getElem?_flatten hblock' (by rwa [List.length_mapIdx, hblockLen])
  rw [hstart] at hrow
  rw [hstart'] at hrow'
  rw [hrow, hrow', List.getElem?_mapIdx]

/-! ## When it works -/

/-- The constraints reach the rows of the drafts as in plain decoding when the output tokens are kept in the
metadata, and the row behind them when the stop tokens fit. -/
structure Supported (b : InputBatch F V) : Prop where
  kept : b.HistoryKept
  stops : ∀ s ∈ b.slots, b.StopTokensFit s

omit [FloatOps F] in
theorem historyAt_length (s : Slot F V) : s.historyAt s.specTokenIds.length = s.history true := by
  rw [Slot.historyAt, List.take_length, Slot.history, if_pos rfl]

/-- Behind the drafts, the stop tokens are masked as with the drafts as output tokens. -/
theorem constrain_behind_drafts (hfit : b.StopTokensFit s) (row : Row F V) :
    b.constrain s (s.history true) (s.belowAt s.specTokenIds.length) row
      = b.constrain s (s.history true) s.below row := by
  refine congrArg (fun mask => masked mask _) (funext fun t => ?_)
  unfold mask
  by_cases hat : s.outputTokenIds.length + s.specTokenIds.length < s.minTokens
  · have hbelow : s.outputTokenIds.length < s.minTokens := by omega
    have hbelowAt : s.belowAt s.specTokenIds.length = s.below := by
      rw [Slot.belowAt, Slot.below, decide_eq_true hat, decide_eq_true hbelow]
    rw [hbelowAt]
  · have hbelowAt : s.belowAt s.specTokenIds.length = false := decide_eq_false hat
    rw [hbelowAt, Bool.false_and, Bool.or_false]
    cases hstop : s.below && hits s.allStopTokenIds t with
    | false => rw [Bool.or_false]
    | true =>
      obtain ⟨hbelow, hhit⟩ := Bool.and_eq_true_iff.mp hstop
      have hmasked := (hfit (of_decide_eq_true hbelow)).2 (by omega) t hhit
      have hhistory : s.history true = s.outputTokenIds ++ s.specTokenIds := if_pos rfl
      rw [Bool.or_true, hhistory, Bool.or_eq_true, Bool.and_eq_true]
      exact hmasked

theorem Supported.equalsPlainDecoding (hb : b.Valid) (h : b.Supported) : b.EqualsPlainDecoding where
  drafts := by
    intro logits hlen
    have hstop : ∀ s ∈ b.slots, StopTokensInRange V (minTokensEntry s) := fun s hs =>
      stopTokensInRange_iff.mpr fun hbelow => (h.stops s hs hbelow).1
    obtain ⟨blocks, hblocks, rfl⟩ := exists_blocks hlen
    refine ⟨_, rejection_applyLogitsProcessors hb h.kept hblocks hstop, ?_, ?_⟩
    · rw [List.length_flatten, List.length_flatten, lengths_of_blocks hblocks, lengths_of_blocks hblocks.byDraft]
    · intro i s hs j hj plain hplain hrow
      rw [plainRow_eq hb hstop hs hj.le hplain, hrow, byDraft_getElem? hblocks hs hj]
  bonus := by
    intro logits hlen
    have hstop : ∀ s ∈ b.slots, StopTokensInRange V (minTokensEntry s) := fun s hs =>
      stopTokensInRange_iff.mpr fun hbelow => (h.stops s hs hbelow).1
    refine ⟨_, sampler_applyLogitsProcessors hlen.symm hb hstop true, by simp [hlen], ?_⟩
    intro i s hs plain hplain hrow
    rw [plainRow_eq hb hstop hs le_rfl hplain, hrow, List.getElem?_zipWith, hs, historyAt_length]
    cases hlogits : logits[i]? with
    | none => rfl
    | some row =>
      exact congrArg (fun row => Except.ok (some row))
        (constrain_behind_drafts (h.stops s (List.mem_of_getElem? hs)) row)

/-! ## When it does not -/

theorem EqualsPlainDecoding.stopTokensInRange (h : b.EqualsPlainDecoding) :
    ∀ s ∈ b.slots, StopTokensInRange V (minTokensEntry s) := by
  obtain ⟨out, hout, -⟩ := h.bonus (List.replicate b.slots.length fun _ => FloatOps.one) List.length_replicate
  obtain ⟨logits, -, hout⟩ := bind_eq_ok.mp hout
  obtain ⟨logits', -, hout⟩ := bind_eq_ok.mp hout
  obtain ⟨logits'', hmin, -⟩ := bind_eq_ok.mp hout
  have hall := inRange_of_minTokensApply hmin
  exact fun s hs => hall _ (List.mem_map_of_mem hs)

omit [FloatOps F] in
theorem repeatInterleave_zero {repeats indices : List Nat} (h : repeatInterleave 0 repeats = .ok indices) :
    indices = [] ∧ repeats.length ≤ 1 := by
  unfold repeatInterleave at h
  split at h
  · cases h
    exact ⟨rfl, le_rfl⟩
  · split at h
    · rename_i hlen
      obtain rfl := List.eq_nil_of_length_eq_zero hlen
      cases h
      exact ⟨rfl, Nat.zero_le _⟩
    · cases h

theorem maskedFill_nil {logits out : Logits F V} (h : maskedFill logits [] = .ok out) : logits = [] := by
  cases logits with
  | nil => rfl
  | cons row logits => cases h

/-- Without the output tokens, the drafts have no slots. -/
theorem EqualsPlainDecoding.historyKept (h : b.EqualsPlainDecoding) : b.HistoryKept := by
  by_contra hkept
  unfold HistoryKept at hkept
  rw [not_or, not_or] at hkept
  obtain ⟨hallowed, hneeds, hmany⟩ := hkept
  have hallowed : b.hasAllowedTokenIds = true := by simpa using hallowed
  have hnoPenalties : b.makeSamplingMetadata.noPenalties = true := by
    change b.noPenalties = true
    rw [needsOutputTokenIds, Bool.or_eq_true, not_or] at hneeds
    simpa using hneeds.1
  obtain ⟨out, hout, -⟩ := h.drafts (List.replicate b.numDraftTokens.sum fun _ => FloatOps.one) List.length_replicate
  have hnil : b.makeSamplingMetadata.outputTokenIds = [] := if_neg hneeds
  have hmask : b.makeSamplingMetadata.allowedTokenIdsMask = some (b.slots.map Slot.allowedMask) := if_pos hallowed
  obtain ⟨logits, hmasks, -⟩ := bind_eq_ok.mp hout
  unfold RejectionSampler.applyPenaltiesAndMask at hmasks
  rw [hmask, hnil] at hmasks
  obtain ⟨indices, hrepeat, hmasks⟩ := bind_eq_ok.mp hmasks
  obtain ⟨rfl, hle⟩ := repeatInterleave_zero hrepeat
  rw [RejectionSampler.applyPenalties, if_pos hnoPenalties] at hmasks
  have hempty := maskedFill_nil hmasks
  refine hmany ⟨by simpa [numDraftTokens] using hle, fun s hs => ?_⟩
  have hsum : b.numDraftTokens.sum = 0 := by
    have := congrArg List.length hempty
    rwa [List.length_replicate] at this
  have hmem : s.specTokenIds.length ∈ b.numDraftTokens := List.mem_map_of_mem hs
  exact List.eq_nil_of_length_eq_zero (List.sum_eq_zero_iff_forall_eq_nat.mp hsum _ hmem)

theorem EqualsPlainDecoding.stopTokensFit (hb : b.Valid) (h : b.EqualsPlainDecoding) (hs : s ∈ b.slots) :
    b.StopTokensFit s := by
  intro hbelow
  refine ⟨stopTokensInRange_iff.mp (h.stopTokensInRange s hs) hbelow, fun henough t hhit => ?_⟩
  obtain ⟨i, hi⟩ := List.mem_iff_getElem?.mp hs
  -- a row whose logit at `t` no penalty takes down
  obtain ⟨row, hrow⟩ : ∃ row : Row F V, b.penalised s (s.history true) row t ≠ FloatOps.negInf := by
    unfold penalised
    by_cases hnone : b.noPenalties = true
    · refine ⟨fun _ => FloatOps.one, fun h => ?_⟩
      rw [if_pos hnone] at h
      have hpos := FloatOps.pos_one (F := F)
      rw [h, FloatOps.pos_negInf] at hpos
      cases hpos
    · refine ⟨fun _ => FloatOps.zero, ?_⟩
      rw [if_neg hnone]
      have hlen : (s.history true).length ≤ s.outputTokenIds.length + s.specTokenIds.length := by
        rw [← historyAt_length]
        exact length_historyAt_le s _
      exact penaliseRow_zero_ne_negInf (hb.slots s hs) _ _ ((hb.slots s hs).counts_history hlen) t
  have hlen : (List.replicate b.slots.length row).length = b.slots.length := List.length_replicate
  obtain ⟨out, hout, -, hrows⟩ := h.bonus _ hlen
  rw [sampler_applyLogitsProcessors hlen.symm hb h.stopTokensInRange true] at hout
  cases hout
  have hget : (List.replicate b.slots.length row)[i]? = some row := by
    rw [List.getElem?_replicate, if_pos (List.getElem?_eq_some_iff.mp hi).1]
  have hsame := hrows i s hi _ hlen rfl
  rw [plainRow_eq hb h.stopTokensInRange hi le_rfl hlen, List.getElem?_zipWith, hi, hget, historyAt_length] at hsame
  have hat := congrFun (Option.some.inj (Except.ok.inj hsame)) t
  have hbelowAt : s.belowAt s.specTokenIds.length = false := decide_eq_false (by omega)
  have hbonus : b.mask s (s.history true) s.below t = true := by
    rw [mask, hhit, Slot.below, decide_eq_true hbelow]
    exact Bool.or_true _
  have hhistory : s.history true = s.outputTokenIds ++ s.specTokenIds := if_pos rfl
  by_contra hfree
  have hplain : b.mask s (s.history true) (s.belowAt s.specTokenIds.length) t = false := by
    rw [mask, hbelowAt, Bool.false_and, Bool.or_false, hhistory, Bool.eq_false_iff, ne_eq, Bool.or_eq_true,
      Bool.and_eq_true]
    exact hfree
  rw [constrain, constrain, masked, masked, hplain, hbonus] at hat
  exact hrow hat

end InputBatch

end

/-- Exact numbers with minus infinity. -/
abbrev Extended : Type := Option Rat

instance : FloatOps Extended where
  negInf := none
  zero := some 0
  one := some 1
  ofNat n := some n
  mul x y := x.bind fun x => y.map fun y => x * y
  sub x y := x.bind fun x => y.map fun y => x - y
  div x y := x.bind fun x => y.map fun y => x / y
  pos x := x.any fun x => 0 < x
  bounded x := x.any fun x => -2 ≤ x ∧ x ≤ 2
  pos_negInf := rfl
  pos_zero := rfl
  pos_one := rfl
  mul_negInf _ _ := rfl
  sub_negInf _ _ _ _ := rfl
  zero_ne_negInf := by
    intro p f f' n n' hp hf hf' _ _
    cases p with
    | none => cases hp
    | some p =>
      cases f with
      | none => cases hf
      | some f =>
        cases f' with
        | none => cases hf'
        | some f' => exact Option.some_ne_none _

/-- A slot with an output token and a draft, which may not have token 0. -/
def restrictedSlot : Slot Extended 3 where
  promptTokenIds := [1]
  outputTokenIds := [2]
  specTokenIds := [1]
  penalties := ⟨some 0, some 0, some 1⟩
  allowedMask t := t.val = 0
  badWordsTokenIds := []
  minTokens := 3
  allStopTokenIds := [2]

theorem restrictedSlot_valid : restrictedSlot.Valid where
  prompt := by decide
  output := by decide
  spec := by decide
  badWords := by decide
  presence := rfl
  frequency := rfl
  repetition := rfl
  length := by decide

namespace InputBatch

end InputBatch

end Yuan.Sampling
