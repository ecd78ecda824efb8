import Yuan.Sampling.Sampler

/-!
# What is done to a row

A row of logits is masked at the tokens that its request may not have next, and it is penalised. The order does
not matter, as no penalty changes a masked logit.
-/

namespace Yuan.Sampling

section

variable {F : Type} {V : Nat} {token : Int} {tokens : List Int}

/-- A token that has a place in a row. -/
def InRange (V : Nat) (token : Int) : Prop := -(V : Int) ≤ token ∧ token < V

instance (V : Nat) (token : Int) : Decidable (InRange V token) := inferInstanceAs (Decidable (_ ∧ _))

theorem IsToken.inRange (h : IsToken V token) : InRange V token := ⟨by have := h.1; omega, h.2⟩

theorem tokenIndex?_eq_none : tokenIndex? V token = none ↔ ¬ InRange V token := by
  unfold tokenIndex? InRange
  by_cases hneg : token < 0
  · simp only [dite_eq_right_iff, reduceCtorEq, imp_false]
    omega
  · simp only [dite_eq_right_iff, reduceCtorEq, imp_false]
    omega

theorem tokenIndex?_eq_some (htoken : IsToken V token) {t : Fin V} :
    tokenIndex? V token = some t ↔ token = (t : Int) := by
  obtain ⟨hlow, hhigh⟩ := htoken
  have hneg : ¬ token < 0 := by omega
  have hin : token.toNat < V ∧ -(V : Int) ≤ token := ⟨by omega, by omega⟩
  unfold tokenIndex?
  simp only [hneg, if_false, hin, and_self, dite_true, Option.some.injEq, Fin.ext_iff]
  omega

/-- The tokens of a list, by their places. -/
def hits (tokens : List Int) (t : Fin V) : Bool := tokens.any fun token => tokenIndex? V token = some t

/-- The tokens that would complete a bad word. -/
def banned (words : List (List Int)) (past : List Int) (t : Fin V) : Bool :=
  words.any fun word => word.isSuffixOf (past ++ [(t : Int)])

def counts (tokens : List Int) (t : Fin V) : Nat := tokens.count (t : Int)

theorem counts_le (tokens : List Int) (t : Fin V) : counts tokens t ≤ tokens.length := List.count_le_length

/-! ## Masks -/

variable [FloatOps F]

def masked (mask : Fin V → Bool) (row : Row F V) : Row F V := fun t => if mask t then FloatOps.negInf else row t

@[simp] theorem masked_false (row : Row F V) : masked (fun _ => false) row = row := rfl

@[simp] theorem masked_masked (mask mask' : Fin V → Bool) (row : Row F V) :
    masked mask (masked mask' row) = masked (fun t => mask t || mask' t) row := by
  funext t
  cases h : mask t <;> simp [masked, h]

theorem maskToken_eq {t : Fin V} (ht : tokenIndex? V token = some t) (row : Row F V) :
    maskToken row token = .ok (masked (fun t' => decide (t = t')) row) := by
  unfold maskToken
  rw [ht]
  refine congrArg Except.ok (funext fun t' => ?_)
  by_cases h : t' = t
  · subst h
    simp [masked]
  · simp [masked, Function.update_of_ne h, Ne.symm h]

/-- Masking a list of tokens succeeds exactly when all have a place. -/
theorem maskTokens_eq (htokens : ∀ token ∈ tokens, InRange V token) (row : Row F V) :
    maskTokens row tokens = .ok (masked (hits tokens) row) := by
  induction tokens generalizing row with
  | nil => rfl
  | cons token tokens ih =>
    obtain ⟨t, ht⟩ : ∃ t, tokenIndex? V token = some t :=
      Option.ne_none_iff_exists'.mp fun hnone => tokenIndex?_eq_none.mp hnone (htokens token (by simp))
    have hrest := ih (fun token' h => htokens token' (List.mem_cons_of_mem _ h))
      (masked (fun t' => decide (t = t')) row)
    unfold maskTokens at hrest ⊢
    rw [List.foldlM_cons, maskToken_eq ht, ok_bind, hrest, masked_masked]
    refine congrArg (fun mask => Except.ok (masked mask row)) (funext fun t' => ?_)
    simp [hits, ht, Bool.or_comm]

theorem inRange_of_maskTokens {row row' : Row F V} (h : maskTokens row tokens = .ok row') :
    ∀ token ∈ tokens, InRange V token := by
  induction tokens generalizing row with
  | nil => simp
  | cons token tokens ih =>
    obtain ⟨row'', hfirst, hrest⟩ := bind_eq_ok.mp h
    refine List.forall_mem_cons.mpr ⟨?_, ih hrest⟩
    by_contra hout
    rw [maskToken, tokenIndex?_eq_none.mpr hout] at hfirst
    cases hfirst

/-! ## Bad words -/

/-- The prefix of a word is compared with as many of the past tokens. -/
theorem append_singleton_suffix {pre past : List Int} {last : Int} :
    pre ++ [last] <:+ past ++ [token] ↔ last = token ∧ pre <:+ past := by
  constructor
  · rintro ⟨front, h⟩
    rw [← List.append_assoc] at h
    obtain ⟨hpast, hlast⟩ := List.append_inj' h rfl
    exact ⟨by simpa using hlast, front, hpast⟩
  · rintro ⟨rfl, front, rfl⟩
    exact ⟨front, by rw [List.append_assoc]⟩

theorem banned_cons {pre past : List Int} {last : Int} {t : Fin V} (hlast : IsToken V last)
    (ht : tokenIndex? V last = some t) (words : List (List Int)) :
    (banned ((pre ++ [last]) :: words) past : Fin V → Bool)
      = fun t' => banned words past t' || (decide (pre <:+ past) && decide (t = t')) := by
  funext t'
  have htoken : last = (t' : Int) ↔ t = t' := by
    rw [← tokenIndex?_eq_some hlast, ht, Option.some.injEq]
  have hsuffix : (pre ++ [last]).isSuffixOf (past ++ [(t' : Int)]) = (decide (pre <:+ past) && decide (t = t')) := by
    rw [Bool.eq_iff_iff, List.isSuffixOf_iff_suffix, append_singleton_suffix, htoken]
    simp [and_comm]
  rw [banned, List.any_cons, hsuffix, Bool.or_comm]
  rfl

theorem applyBadWordsSingleBatch_eq {words : List (List Int)} (past : List Int)
    (hwords : ∀ word ∈ words, word ≠ [] ∧ ∀ token ∈ word, IsToken V token) (row : Row F V) :
    applyBadWordsSingleBatch past words row = .ok (masked (banned words past) row) := by
  induction words generalizing row with
  | nil => rfl
  | cons word words ih =>
    obtain ⟨hne, htokens⟩ := hwords word (by simp)
    have hrest := ih fun word' h => hwords word' (List.mem_cons_of_mem _ h)
    obtain ⟨pre, last, rfl⟩ : ∃ pre last, word = pre ++ [last] :=
      ⟨_, _, (List.dropLast_append_getLast hne).symm⟩
    have hlast : IsToken V last := htokens last (by simp)
    obtain ⟨t, ht⟩ : ∃ t, tokenIndex? V last = some t :=
      Option.ne_none_iff_exists'.mp fun hnone => tokenIndex?_eq_none.mp hnone hlast.inRange
    rw [banned_cons hlast ht]
    unfold applyBadWordsSingleBatch
    split
    · rename_i hlong
      have hno : ¬ pre <:+ past := fun h => by
        have := h.length_le
        simp only [List.length_append, List.length_singleton] at hlong
        omega
      simp [hrest, hno]
    · rename_i hshort
      have hlen : (pre ++ [last]).length - 1 = pre.length := by simp
      have hactual : (if 0 < pre.length then past.drop (past.length - pre.length) else [])
          = past.drop (past.length - pre.length) := by
        split
        · rfl
        · rw [List.drop_eq_nil_of_le (by omega)]
      have hassert : decide ((past.drop (past.length - pre.length)).length = pre.length) = true := by
        rw [List.length_drop, decide_eq_true_eq]
        omega
      have hiff : past.drop (past.length - pre.length) = pre ↔ pre <:+ past := by
        rw [List.suffix_iff_eq_drop, eq_comm]
      dsimp only
      rw [List.getLast?_concat, hlen, List.take_left]
      dsimp only
      rw [hactual, hassert, pyAssert_true, ok_bind]
      by_cases hpre : pre <:+ past
      · rw [if_pos (hiff.mpr hpre), maskToken_eq ht, ok_bind, hrest]
        simp [hpre]
      · rw [if_neg fun h => hpre (hiff.mp h), pure_bind, hrest]
        simp [hpre]

/-! ## Penalties -/

theorem binCounts_eq (htokens : ∀ token ∈ tokens, 0 ≤ token ∧ token ≤ V) :
    binCounts V tokens = .ok (counts tokens) := by
  have hall : (tokens.all fun token => decide (0 ≤ token ∧ token ≤ V)) = true := by
    simpa using htokens
  rw [binCounts, if_pos hall]
  rfl

/-- A row of `_convert_to_tensors`, `w` wide. -/
def padded (V w : Nat) (tokens : List Int) : List Int :=
  (tokens ++ List.replicate (w - tokens.length) (V : Int)).map fun token => if token = -1 then (V : Int) else token

theorem convertToTensors_eq (V : Nat) (rows : List (List Int)) :
    ∃ w, convertToTensors V rows = rows.map (padded V w) := by
  refine ⟨(rows.map List.length).foldl max 0, ?_⟩
  rw [convertToTensors, makeTensorWithPad, List.map_map]
  rfl

/-- Neither the padding nor a placeholder is counted. -/
theorem binCounts_padded (htokens : ∀ token ∈ tokens, token = -1 ∨ IsToken V token) (w : Nat) :
    binCounts V (padded V w tokens) = .ok (counts tokens) := by
  have hrange : ∀ token ∈ padded V w tokens, 0 ≤ token ∧ token ≤ V := by
    intro token htoken
    obtain ⟨token', htoken', rfl⟩ := List.mem_map.mp htoken
    split
    · omega
    · rename_i hne
      rcases List.mem_append.mp htoken' with hmem | hmem
      · rcases htokens token' hmem with rfl | hin
        · exact absurd rfl hne
        · exact ⟨hin.1, hin.2.le⟩
      · rw [List.eq_of_mem_replicate hmem]
        omega
  rw [binCounts_eq hrange]
  refine congrArg Except.ok (funext fun t => ?_)
  have hpad : ∀ n, (List.replicate n (V : Int)).countP
      (fun token => (if token = -1 then (V : Int) else token) == (t : Int)) = 0 := by
    intro n
    rw [List.countP_eq_zero]
    intro token htoken
    rw [List.eq_of_mem_replicate htoken]
    simp only [beq_iff_eq]
    split <;> omega
  unfold counts padded
  rw [List.count_eq_countP, List.countP_map, List.countP_append]
  rw [show ((fun x => x == (t : Int)) ∘ fun token => if token = -1 then (V : Int) else token)
    = fun token => (if token = -1 then (V : Int) else token) == (t : Int) from rfl, hpad, Nat.add_zero]
  refine List.countP_congr fun token htoken => ?_
  simp only [beq_iff_eq]
  split <;> omega

theorem Slot.Valid.pos {s : Slot F V} (hs : s.Valid) (seen : Prop) [Decidable seen] :
    FloatOps.pos (if seen then s.penalties.repetition else FloatOps.one) = true := by
  split
  · exact hs.repetition
  · exact FloatOps.pos_one

theorem present_lt (seen : Prop) [Decidable seen] : (if seen then 1 else 0) < 2 ^ 63 := by split <;> decide

theorem penaliseRow_masked {s : Slot F V} (hs : s.Valid) (promptCounts outputCounts : Fin V → Nat)
    (hcounts : ∀ t, outputCounts t < 2 ^ 63) (mask : Fin V → Bool) (row : Row F V) :
    penaliseRow promptCounts outputCounts s.penalties (masked mask row)
      = masked mask (penaliseRow promptCounts outputCounts s.penalties row) := by
  funext t
  cases hmask : mask t with
  | false => simp [penaliseRow, masked, hmask]
  | true =>
    simp only [penaliseRow, masked, hmask, if_true, FloatOps.pos_negInf, Bool.false_eq_true, if_false,
      FloatOps.mul_negInf _ (hs.pos _), FloatOps.sub_negInf _ _ hs.frequency (hcounts t),
      FloatOps.sub_negInf _ _ hs.presence (present_lt _)]

theorem penaliseRow_zero_ne_negInf {s : Slot F V} (hs : s.Valid) (promptCounts outputCounts : Fin V → Nat)
    (hcounts : ∀ t, outputCounts t < 2 ^ 63) (t : Fin V) :
    penaliseRow promptCounts outputCounts s.penalties (fun _ => FloatOps.zero) t ≠ FloatOps.negInf := by
  simp only [penaliseRow, FloatOps.pos_zero, Bool.false_eq_true]
  exact FloatOps.zero_ne_negInf _ _ _ _ _ (hs.pos _) hs.frequency hs.presence (hcounts t) (present_lt _)

/-! ## What a request asks for -/

/-- The row of a slot, penalised for a history of output tokens. -/
def Slot.penalised (s : Slot F V) (history : List Int) (row : Row F V) : Row F V :=
  penaliseRow (counts s.promptTokenIds) (counts history) s.penalties row

namespace InputBatch

variable (b : InputBatch F V)

/-- The tokens that a slot may not have after a history, `below` its minimum of tokens or not. -/
def mask (s : Slot F V) (history : List Int) (below : Bool) (t : Fin V) : Bool :=
  (b.hasAllowedTokenIds && s.allowedMask t) || banned s.badWordsTokenIds history t ||
    (below && hits s.allStopTokenIds t)

def penalised (s : Slot F V) (history : List Int) (row : Row F V) : Row F V :=
  if b.noPenalties then row else s.penalised history row

def constrain (s : Slot F V) (history : List Int) (below : Bool) (row : Row F V) : Row F V :=
  masked (b.mask s history below) (b.penalised s history row)

end InputBatch

end

end Yuan.Sampling
