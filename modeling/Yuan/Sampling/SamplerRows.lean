import Yuan.Sampling.RowConstraints

/-!
# The rows of the sampler

Each operation of the sampler goes over its rows, and does to a row what its slot asks for.
-/

namespace Yuan.Sampling

section

variable {F : Type} {V : Nat} [FloatOps F] {ι : Type} {ps : List ι} {front : Logits F V}

/-! ## Operations on all rows -/

theorem maskedFill_eq (mask : ι → Fin V → Bool) {logits : Logits F V} (hlen : ps.length = logits.length) :
    maskedFill logits (ps.map mask) = .ok (ps.zipWith (fun p row => masked (mask p) row) logits) := by
  induction ps generalizing logits with
  | nil =>
    obtain rfl := List.eq_nil_of_length_eq_zero hlen.symm
    rfl
  | cons p ps ih =>
    obtain ⟨row, logits, rfl⟩ := List.exists_cons_of_length_eq_add_one hlen.symm
    rw [List.map_cons, maskedFill, ih (by simpa using hlen)]
    rfl

theorem penaliseRows_eq (slot : ι → Slot F V) (history : ι → List Int) (w : Nat) {logits : Logits F V}
    (hlen : ps.length = logits.length) (hslot : ∀ p ∈ ps, (slot p).Valid)
    (hhistory : ∀ p ∈ ps, ∀ token ∈ history p, token = -1 ∨ IsToken V token) :
    penaliseRows logits (ps.map fun p => (slot p).promptTokenIds) (ps.map fun p => (slot p).penalties)
        (ps.map fun p => padded V w (history p))
      = .ok (ps.zipWith (fun p row => (slot p).penalised (history p) row) logits) := by
  induction ps generalizing logits with
  | nil =>
    obtain rfl := List.eq_nil_of_length_eq_zero hlen.symm
    rfl
  | cons p ps ih =>
    obtain ⟨row, logits, rfl⟩ := List.exists_cons_of_length_eq_add_one hlen.symm
    have hprompt : ∀ token ∈ (slot p).promptTokenIds, 0 ≤ token ∧ token ≤ V := fun token h =>
      ⟨((hslot p List.mem_cons_self).prompt token h).1, ((hslot p List.mem_cons_self).prompt token h).2.le⟩
    have hrows : ps.length = logits.length := Nat.succ.inj hlen
    have hrest := ih hrows (fun p' h => hslot p' (List.mem_cons_of_mem _ h))
      fun p' h => hhistory p' (List.mem_cons_of_mem _ h)
    rw [List.map_cons, List.map_cons, List.map_cons, penaliseRows, binCounts_eq hprompt, ok_bind,
      binCounts_padded (hhistory p List.mem_cons_self), ok_bind, hrest]
    rfl

theorem applyAllPenalties_eq (slot : ι → Slot F V) (history : ι → List Int) {logits : Logits F V}
    (hlen : ps.length = logits.length) (hslot : ∀ p ∈ ps, (slot p).Valid)
    (hhistory : ∀ p ∈ ps, ∀ token ∈ history p, token = -1 ∨ IsToken V token) :
    applyAllPenalties logits (ps.map fun p => (slot p).promptTokenIds) (ps.map fun p => (slot p).penalties)
        (ps.map history)
      = .ok (ps.zipWith (fun p row => (slot p).penalised (history p) row) logits) := by
  obtain ⟨w, hw⟩ := convertToTensors_eq V (ps.map history)
  have hpad : (ps.map history).map (padded V w) = ps.map fun p => padded V w (history p) := by
    rw [List.map_map]
    rfl
  rw [applyAllPenalties, hw, hpad, penaliseRows_eq slot history w hlen hslot hhistory]

/-! ## Operations on some rows -/

omit [FloatOps F] in
/-- Only the row that is addressed is read and written. -/
theorem modifyRow_append {rest : Logits F V} {row row' : Row F V} {k : Nat} {f : Row F V → Except PyError (Row F V)}
    (hk : front.length = k) (hrow : f row = .ok row') :
    modifyRow (front ++ row :: rest) k f = .ok (front ++ row' :: rest) := by
  subst hk
  have hget : (front ++ row :: rest)[front.length]? = some row := by simp
  rw [modifyRow, hget]
  dsimp only
  rw [hrow, ok_bind, List.set_append_right _ _ le_rfl, Nat.sub_self, List.set_cons_zero]
  rfl

theorem badWordsRow_eq {past : List (List Int)} {words : List (List Int)} {history : List Int} {k : Nat}
    (hpast : past[k]? = some history) (hwords : ∀ word ∈ words, word ≠ [] ∧ ∀ token ∈ word, IsToken V token)
    (row : Row F V) : badWordsRow past words k row = .ok (masked (banned words history) row) := by
  rw [badWordsRow, hpast]
  exact applyBadWordsSingleBatch_eq history hwords row

theorem applyBadWords_eq (words : ι → List (List Int)) (history : ι → List Int) {past : List (List Int)}
    {logits : Logits F V} {i : Nat} (hfront : front.length = i) (hlen : ps.length = logits.length)
    (hwords : ∀ p ∈ ps, ∀ word ∈ words p, word ≠ [] ∧ ∀ token ∈ word, IsToken V token)
    (hpast : past.drop i = ps.map history) : applyBadWords past i (ps.map words) (front ++ logits)
      = .ok (front ++ ps.zipWith (fun p row => masked (banned (words p) (history p)) row) logits) := by
  induction ps generalizing front logits i with
  | nil =>
    obtain rfl := List.eq_nil_of_length_eq_zero hlen.symm
    rfl
  | cons p ps ih =>
    obtain ⟨row, logits, rfl⟩ := List.exists_cons_of_length_eq_add_one hlen.symm
    have hget : past[i]? = some (history p) := by
      rw [← Nat.add_zero i, ← List.getElem?_drop, hpast]
      rfl
    have hdrop : past.drop (i + 1) = ps.map history := by
      rw [← List.drop_drop, hpast]
      rfl
    have hrow := badWordsRow_eq hget (hwords p List.mem_cons_self) row
    have hfront' : (front ++ [masked (banned (words p) (history p)) row]).length = i + 1 := by simp [hfront]
    have hrows : ps.length = logits.length := Nat.succ.inj hlen
    have hrest := ih hfront' hrows (fun p' h => hwords p' (List.mem_cons_of_mem _ h)) hdrop
    rw [List.append_assoc, List.singleton_append, List.append_assoc] at hrest
    rw [List.map_cons, applyBadWords, List.zipWith_cons_cons]
    by_cases hnone : words p = []
    · rw [if_pos hnone]
      have hsame : masked (banned (words p) (history p)) row = row := by
        rw [hnone]
        rfl
      rw [hsame] at hrest ⊢
      exact hrest
    · rw [if_neg hnone, modifyRow_append hfront hrow]
      exact hrest

/-- The stop tokens of a slot, while it has fewer tokens than it needs. -/
def entryMask (entry : Option MinTokensEntry) (t : Fin V) : Bool := entry.any fun entry => hits entry.stopTokIds t

/-- All stop tokens have a place in a row. -/
def StopTokensInRange (V : Nat) (entry : Option MinTokensEntry) : Prop :=
  ∀ e, entry = some e → ∀ token ∈ e.stopTokIds, InRange V token

theorem minTokensApply_eq (entry : ι → Option MinTokensEntry) {logits : Logits F V} {i : Nat}
    (hfront : front.length = i) (hlen : ps.length = logits.length) (hstop : ∀ p ∈ ps, StopTokensInRange V (entry p)) :
    minTokensApply i (ps.map entry) (front ++ logits)
      = .ok (front ++ ps.zipWith (fun p row => masked (entryMask (entry p)) row) logits) := by
  induction ps generalizing front logits i with
  | nil =>
    obtain rfl := List.eq_nil_of_length_eq_zero hlen.symm
    rfl
  | cons p ps ih =>
    obtain ⟨row, logits, rfl⟩ := List.exists_cons_of_length_eq_add_one hlen.symm
    have hfront' : (front ++ [masked (entryMask (entry p)) row]).length = i + 1 := by simp [hfront]
    have hrows : ps.length = logits.length := Nat.succ.inj hlen
    have hrest := ih hfront' hrows fun p' h => hstop p' (List.mem_cons_of_mem _ h)
    rw [List.append_assoc, List.singleton_append, List.append_assoc] at hrest
    rw [List.map_cons, List.zipWith_cons_cons]
    cases hentry : entry p with
    | none =>
      rw [hentry] at hrest
      exact hrest
    | some e =>
      rw [hentry] at hrest
      rw [minTokensApply]
      by_cases hnone : e.stopTokIds = []
      · rw [if_pos hnone]
        have hsame : masked (entryMask (some e)) row = row := by
          funext t
          simp [masked, entryMask, hits, hnone]
        rw [hsame] at hrest ⊢
        exact hrest
      · have hrow := maskTokens_eq (hstop p List.mem_cons_self e hentry) row
        rw [if_neg hnone, modifyRow_append hfront hrow]
        exact hrest

/-- If it does not raise, every stop token that it masks has a place. -/
theorem inRange_of_minTokensApply {minToks : List (Option MinTokensEntry)} {i : Nat} {logits out : Logits F V}
    (h : minTokensApply i minToks logits = .ok out) : ∀ entry ∈ minToks, StopTokensInRange V entry := by
  induction minToks generalizing i logits with
  | nil => simp
  | cons entry minToks ih =>
    refine List.forall_mem_cons.mpr ?_
    cases entry with
    | none => exact ⟨fun e he => (by cases he), ih h⟩
    | some e =>
      rw [minTokensApply] at h
      by_cases hnone : e.stopTokIds = []
      · rw [if_pos hnone] at h
        refine ⟨?_, ih h⟩
        intro e' he token htoken
        cases he
        rw [hnone] at htoken
        cases htoken
      · rw [if_neg hnone] at h
        obtain ⟨logits', hrow, hrest⟩ := bind_eq_ok.mp h
        refine ⟨?_, ih hrest⟩
        intro e' he
        cases he
        unfold modifyRow at hrow
        split at hrow
        · obtain ⟨row', hmask, -⟩ := bind_eq_ok.mp hrow
          exact inRange_of_maskTokens hmask
        · cases hrow

/-! ## The whole call -/

omit [FloatOps F] in
theorem zipWith_zipWith_self {α β γ : Type} (f : ι → β → γ) (g : ι → α → β) (ps : List ι) (as : List α) :
    ps.zipWith f (ps.zipWith g as) = ps.zipWith (fun p a => f p (g p a)) as := by
  induction ps generalizing as with
  | nil => rfl
  | cons p ps ih =>
    cases as with
    | nil => rfl
    | cons a as => rw [List.zipWith_cons_cons, List.zipWith_cons_cons, List.zipWith_cons_cons, ih]

omit [FloatOps F] in
theorem zipWith_self {α : Type} {as : List α} (hlen : ps.length = as.length) : ps.zipWith (fun _ a => a) as = as := by
  induction ps generalizing as with
  | nil => exact (List.eq_nil_of_length_eq_zero hlen.symm).symm
  | cons p ps ih =>
    obtain ⟨a, as, rfl⟩ := List.exists_cons_of_length_eq_add_one hlen.symm
    rw [List.zipWith_cons_cons, ih (by simpa using hlen)]

omit [FloatOps F] in
theorem zipWith_congr_mem {α β : Type} {f g : ι → α → β} (h : ∀ p ∈ ps, f p = g p) (as : List α) :
    ps.zipWith f as = ps.zipWith g as := by
  induction ps generalizing as with
  | nil => rfl
  | cons p ps ih =>
    cases as with
    | nil => rfl
    | cons a as =>
      rw [List.zipWith_cons_cons, List.zipWith_cons_cons, h p List.mem_cons_self,
        ih fun p' hp' => h p' (List.mem_cons_of_mem _ hp')]

/-- The output tokens of a slot, with its drafts behind them or not. -/
def Slot.history (s : Slot F V) (withDrafts : Bool) : List Int :=
  if withDrafts then s.outputTokenIds ++ s.specTokenIds else s.outputTokenIds

/-- The slot has fewer tokens than it needs. -/
def Slot.below (s : Slot F V) : Bool := s.outputTokenIds.length < s.minTokens

omit [FloatOps F] in
theorem minTokensEntry_eq (s : Slot F V) :
    minTokensEntry s = if s.below then some ⟨s.minTokens, s.outputTokenIds.length, s.allStopTokenIds⟩ else none := by
  unfold minTokensEntry Slot.below
  by_cases h : s.outputTokenIds.length < s.minTokens
  · rw [if_neg (by omega), if_pos (by simpa using h)]
  · rw [if_pos (by omega), if_neg (by simpa using h)]

omit [FloatOps F] in
theorem entryMask_minTokensEntry (s : Slot F V) :
    (entryMask (minTokensEntry s) : Fin V → Bool) = fun t => s.below && hits s.allStopTokenIds t := by
  funext t
  rw [minTokensEntry_eq]
  cases s.below <;> rfl

theorem Slot.Valid.history {s : Slot F V} (hs : s.Valid) (withDrafts : Bool) :
    ∀ token ∈ s.history withDrafts, token = -1 ∨ IsToken V token := by
  intro token htoken
  unfold Slot.history at htoken
  split at htoken
  · rcases List.mem_append.mp htoken with h | h
    · exact hs.output token h
    · exact hs.spec token h
  · exact hs.output token htoken

theorem Slot.Valid.counts_history {s : Slot F V} (hs : s.Valid) {history : List Int}
    (hhistory : history.length ≤ s.outputTokenIds.length + s.specTokenIds.length) (t : Fin V) :
    counts history t < 2 ^ 63 :=
  (counts_le history t).trans_lt (hhistory.trans_lt hs.length)

namespace InputBatch

variable {b : InputBatch F V}

section

omit [FloatOps F]

theorem metadata_hasBadWords : b.makeSamplingMetadata.hasBadWords = b.hasBadWords := by
  unfold SamplingMetadata.hasBadWords hasBadWords makeSamplingMetadata
  rw [List.any_map]
  rfl

theorem banned_of_hasBadWords_eq_false (h : b.hasBadWords = false) {s : Slot F V} (hs : s ∈ b.slots) :
    s.badWordsTokenIds = [] := by
  simpa using List.any_eq_false.mp h s hs

theorem combine_outputs (slots : List (Slot F V)) :
    Sampler.combineOutputsWithSpecTokens (slots.map Slot.outputTokenIds) (slots.map Slot.specTokenIds)
      = slots.map fun s => s.history true := by
  unfold Sampler.combineOutputsWithSpecTokens
  rw [List.zipWith_map, List.zipWith_self]
  refine List.map_congr_left fun s _ => ?_
  unfold Slot.history
  by_cases h : s.specTokenIds = []
  · rw [if_neg (not_not.mpr h), if_pos rfl, h, List.append_nil]
  · rw [if_pos h, if_pos rfl]

theorem metadata_outputTokenIds (hneeds : b.needsOutputTokenIds = true) :
    (b.makeSamplingMetadata.hasBadWords || !b.makeSamplingMetadata.noPenalties) = true ∧
      b.makeSamplingMetadata.outputTokenIds = b.slots.map Slot.outputTokenIds := by
  refine ⟨?_, if_pos hneeds⟩
  rw [metadata_hasBadWords, Bool.or_comm]
  exact hneeds

/-- Where the history is read, it is there. -/
theorem sampler_outputTokenIds (hneeds : b.needsOutputTokenIds = true) (predictBonusToken : Bool) :
    Sampler.outputTokenIds b.makeSamplingMetadata predictBonusToken
      = b.slots.map fun s => s.history predictBonusToken := by
  obtain ⟨hany, hout⟩ := metadata_outputTokenIds hneeds
  unfold Sampler.outputTokenIds
  dsimp only
  rw [hany, Bool.and_true, hout]
  cases predictBonusToken with
  | false => rfl
  | true => exact combine_outputs b.slots

end

/-- No penalty changes a masked logit. -/
theorem penalised_masked {s : Slot F V} (hs : s.Valid) {history : List Int}
    (hhistory : history.length ≤ s.outputTokenIds.length + s.specTokenIds.length) (mask : Fin V → Bool)
    (row : Row F V) : b.penalised s history (masked mask row) = masked mask (b.penalised s history row) := by
  unfold penalised
  split
  · rfl
  · exact penaliseRow_masked hs _ _ (hs.counts_history hhistory) mask row

section

variable {logits : Logits F V} (hlen : b.slots.length = logits.length)
include hlen

theorem sampler_applyAllowedTokenIds :
    Sampler.applyAllowedTokenIds logits b.makeSamplingMetadata.allowedTokenIdsMask
      = .ok (b.slots.zipWith (fun s row => masked (fun t => b.hasAllowedTokenIds && s.allowedMask t) row) logits) := by
  unfold makeSamplingMetadata
  cases b.hasAllowedTokenIds with
  | true => exact maskedFill_eq Slot.allowedMask hlen
  | false => exact congrArg Except.ok (zipWith_self hlen).symm

theorem sampler_applyBadWordsExclusion (hb : b.Valid) (predictBonusToken : Bool) :
    Sampler.applyBadWordsExclusion logits b.makeSamplingMetadata
        (Sampler.outputTokenIds b.makeSamplingMetadata predictBonusToken)
      = .ok (b.slots.zipWith (fun s row => masked (banned s.badWordsTokenIds (s.history predictBonusToken)) row)
          logits) := by
  rw [Sampler.applyBadWordsExclusion, metadata_hasBadWords]
  by_cases hwords : b.hasBadWords = true
  · have hneeds : b.needsOutputTokenIds = true := by rw [needsOutputTokenIds, hwords, Bool.or_true]
    rw [if_pos hwords]
    have hfront : ([] : Logits F V).length = 0 := rfl
    exact applyBadWords_eq Slot.badWordsTokenIds (fun s => s.history predictBonusToken) hfront hlen
      (fun s hs => (hb.slots s hs).badWords) (sampler_outputTokenIds hneeds predictBonusToken)
  · rw [if_neg hwords]
    refine congrArg Except.ok ?_
    rw [← zipWith_self hlen, zipWith_zipWith_self]
    refine zipWith_congr_mem (fun s hs => ?_) logits
    rw [banned_of_hasBadWords_eq_false (Bool.eq_false_of_not_eq_true hwords) hs]
    rfl

theorem sampler_applyPenalties (hb : b.Valid) (predictBonusToken : Bool) :
    Sampler.applyPenalties logits b.makeSamplingMetadata
        (Sampler.outputTokenIds b.makeSamplingMetadata predictBonusToken)
      = .ok (b.slots.zipWith (fun s row => b.penalised s (s.history predictBonusToken) row) logits) := by
  have hnoPenalties : b.makeSamplingMetadata.noPenalties = b.noPenalties := rfl
  unfold Sampler.applyPenalties
  rw [hnoPenalties]
  by_cases hnone : b.noPenalties = true
  · rw [if_pos hnone]
    refine congrArg Except.ok ?_
    simp only [penalised, hnone]
    exact (zipWith_self hlen).symm
  · have hneeds : b.needsOutputTokenIds = true := by
      rw [needsOutputTokenIds, Bool.eq_false_of_not_eq_true hnone]
      rfl
    have hprompt : b.makeSamplingMetadata.promptTokenIds = some (b.slots.map Slot.promptTokenIds) := if_neg hnone
    rw [if_neg hnone, hprompt, sampler_outputTokenIds hneeds]
    simp only [penalised, hnone]
    exact applyAllPenalties_eq id (fun s => s.history predictBonusToken) hlen hb.slots
      fun s hs => (hb.slots s hs).history predictBonusToken

/-- When the stop tokens that are masked have a place, every row becomes what its slot asks for. -/
theorem sampler_applyLogitsProcessors (hb : b.Valid)
    (hstop : ∀ s ∈ b.slots, StopTokensInRange V (minTokensEntry s)) (predictBonusToken : Bool) :
    Sampler.applyLogitsProcessors logits b.makeSamplingMetadata predictBonusToken
      = .ok (b.slots.zipWith (fun s row => b.constrain s (s.history predictBonusToken) s.below row) logits) := by
  have hmin : ∀ logits : Logits F V, b.slots.length = logits.length →
      minTokensApply 0 b.makeSamplingMetadata.minToks logits
        = .ok (b.slots.zipWith (fun s row => masked (entryMask (minTokensEntry s)) row) logits) :=
    fun logits hlen => by
      have hfront : ([] : Logits F V).length = 0 := rfl
      exact minTokensApply_eq minTokensEntry hfront hlen hstop
  unfold Sampler.applyLogitsProcessors
  rw [sampler_applyAllowedTokenIds hlen, ok_bind, sampler_applyBadWordsExclusion (by simp [hlen]) hb, ok_bind,
    hmin _ (by simp [hlen]), ok_bind, sampler_applyPenalties (by simp [hlen]) hb, zipWith_zipWith_self,
    zipWith_zipWith_self, zipWith_zipWith_self]
  refine congrArg Except.ok (zipWith_congr_mem (fun s hs => funext fun row => ?_) logits)
  have hhistory : (s.history predictBonusToken).length ≤ s.outputTokenIds.length + s.specTokenIds.length := by
    unfold Slot.history
    split <;> simp
  rw [entryMask_minTokensEntry, masked_masked, masked_masked, penalised_masked (hb.slots s hs) hhistory]
  refine congrArg (fun mask => masked mask _) (funext fun t => ?_)
  rw [mask, Bool.or_comm, Bool.or_comm (s.below && _), Bool.or_assoc]

end

end InputBatch

end

end Yuan.Sampling
