import Yuan.Lib.Borders
import Mathlib.Tactic.Common

/-!
# `NgramProposer`: drafts from an earlier occurrence of the last tokens

The proposer looks for the longest suffix of the tokens that occurs in them before, and proposes what followed
it there. It reverses the tokens and computes the prefix function of the result, as the algorithm of Knuth, Morris
and Pratt does, with lengths capped at `max_ngram`.

The specification searches naively. The invariant of the loop says which borders of the reversed prefix are left to
try, and that the best match up to now is the longest and last one.
-/

namespace Yuan.SpecDecode

variable {τ : Type} [DecidableEq τ]

/-- The locals of the loop. -/
structure NgramSearch where
  lps : List Nat
  longestNgram : Nat := 0
  position : Nat := 0
  prevLps : Nat := 0
  i : Nat := 1

namespace NgramSearch

variable (tokens : List τ) (maxNgram : Nat)

/-- The body of the loop when the tokens match. -/
def extend (s : NgramSearch) : NgramSearch :=
  let prevLps := s.prevLps + 1
  let lps := if s.i < maxNgram then s.lps.set s.i prevLps else s.lps
  { lps
    longestNgram := if s.longestNgram ≤ prevLps then prevLps else s.longestNgram
    position := if s.longestNgram ≤ prevLps then s.i else s.position
    -- no match may grow beyond `max_ngram`
    prevLps := if prevLps = maxNgram then lps.getD (maxNgram - 1) 0 else prevLps
    i := s.i + 1 }

/-- The body of the loop. -/
def step (s : NgramSearch) : NgramSearch :=
  if tokens[s.prevLps]? = tokens[s.i]? then s.extend maxNgram
  else if s.prevLps ≠ 0 then { s with prevLps := s.lps.getD (s.prevLps - 1) 0 }
  else { s with i := s.i + 1 }

/-- The loop, with fuel for its turns. -/
def loop : Nat → NgramSearch → Option NgramSearch
  | 0, s => if s.i < tokens.length then none else some s
  | fuel + 1, s => if s.i < tokens.length then loop fuel (s.step tokens maxNgram) else some s

end NgramSearch

/-- `_find_longest_matched_ngram_and_propose_tokens`. The loop takes at most two turns for each token. -/
def findLongestMatchedNgramAndProposeTokens (originTokens : List τ) (minNgram maxNgram : Nat)
    (maxModelLen k : Int) : Option (List τ) :=
  let totalToken := originTokens.length
  if totalToken < minNgram then some []
  else
    let k := min k (maxModelLen - totalToken)
    if k ≤ 0 then some []
    else do
      let s ← NgramSearch.loop originTokens.reverse maxNgram (2 * totalToken) { lps := List.replicate maxNgram 0 }
      if s.longestNgram < minNgram then return []
      else
        let startPosition : Int := totalToken - 1 - s.position + s.longestNgram
        let k := min k (totalToken - startPosition)
        return (originTokens.drop startPosition.toNat).take k.toNat

/-! ## The naive search -/

/-- The last `n` tokens occur at position `p`, before their own place. -/
def OccursAt (originTokens : List τ) (n p : Nat) : Prop :=
  p + n < originTokens.length ∧ (originTokens.drop p).take n = originTokens.drop (originTokens.length - n)

instance (originTokens : List τ) (n p : Nat) : Decidable (OccursAt originTokens n p) :=
  inferInstanceAs (Decidable (_ ∧ _))

/-- The first place where the last `n` tokens occur before. -/
def earliestOccurrence (originTokens : List τ) (n : Nat) : Option Nat :=
  (List.range originTokens.length).find? fun p => OccursAt originTokens n p

/-- The longest suffix that occurs before, with its first place, among the lengths from the last argument down to
`minNgram`. -/
def longestMatch (originTokens : List τ) (minNgram : Nat) : Nat → Option (Nat × Nat)
  | 0 => none
  | n + 1 =>
    if n + 1 < minNgram then none
    else
      match earliestOccurrence originTokens (n + 1) with
      | some p => some (n + 1, p)
      | none => longestMatch originTokens minNgram n

/-- What the proposer should return. -/
def proposal (originTokens : List τ) (minNgram maxNgram : Nat) (maxModelLen k : Int) : List τ :=
  match longestMatch originTokens minNgram maxNgram with
  | none => []
  | some (n, p) => (originTokens.drop (p + n)).take (min k (maxModelLen - originTokens.length)).toNat

variable {originTokens : List τ} {minNgram maxNgram n p : Nat}

theorem earliestOccurrence_eq_some (h : OccursAt originTokens n p)
    (hfirst : ∀ p', OccursAt originTokens n p' → p ≤ p') : earliestOccurrence originTokens n = some p := by
  rw [earliestOccurrence, List.find?_range_eq_some]
  refine ⟨by simpa using h, List.mem_range.mpr (by have := h.1; omega), ?_⟩
  intro p' hp'
  have hnot : ¬ OccursAt originTokens n p' := fun h' => absurd (hfirst p' h') (by omega)
  simpa using hnot

theorem earliestOccurrence_eq_none (h : ∀ p, ¬ OccursAt originTokens n p) :
    earliestOccurrence originTokens n = none := by
  rw [earliestOccurrence, List.find?_eq_none]
  intro p _
  simpa using h p

theorem longestMatch_eq_none (h : ∀ n p, minNgram ≤ n → n ≤ maxNgram → ¬ OccursAt originTokens n p) :
    longestMatch originTokens minNgram maxNgram = none := by
  induction maxNgram with
  | zero => rfl
  | succ maxNgram ih =>
    rw [longestMatch]
    split
    · rfl
    case isFalse hlow =>
      rw [earliestOccurrence_eq_none fun p => h (maxNgram + 1) p (by omega) (by omega)]
      exact ih fun n p hmin hmax => h n p hmin (by omega)

theorem longestMatch_eq_some (hpos : 0 < n) (hmin : minNgram ≤ n) (hmax : n ≤ maxNgram)
    (h : OccursAt originTokens n p) (hfirst : ∀ p', OccursAt originTokens n p' → p ≤ p')
    (hlongest : ∀ n' p', n' ≤ maxNgram → OccursAt originTokens n' p' → n' ≤ n) :
    longestMatch originTokens minNgram maxNgram = some (n, p) := by
  induction maxNgram with
  | zero => omega
  | succ maxNgram ih =>
    rw [longestMatch, if_neg (by omega)]
    by_cases heq : n = maxNgram + 1
    · subst heq
      rw [earliestOccurrence_eq_some h hfirst]
    · have hnone : ∀ p', ¬ OccursAt originTokens (maxNgram + 1) p' := by
        intro p' h'
        have hle := hlongest (maxNgram + 1) p' (Nat.le_refl _) h'
        omega
      rw [earliestOccurrence_eq_none hnone]
      exact ih (by omega) fun n' p' hn' => hlongest n' p' (by omega)

omit [DecidableEq τ] in
/-- In the reversed tokens, an occurrence is a border. -/
theorem occursAt_iff_border : OccursAt originTokens n p ↔
    p + n < originTokens.length ∧ Border originTokens.reverse (originTokens.length - p) n := by
  refine and_congr_right fun hlt => ?_
  have hlen : (originTokens.drop (originTokens.length - n)).length = n := by
    rw [List.length_drop]
    omega
  have hbeginning : (originTokens.drop p).take n = originTokens.drop (originTokens.length - n) ↔
      originTokens.drop (originTokens.length - n) <+: originTokens.drop p := by
    rw [List.prefix_iff_eq_take, hlen]
    exact eq_comm
  rw [hbeginning, ← List.reverse_suffix, Border, List.reverse_drop, List.reverse_drop,
    show originTokens.length - (originTokens.length - n) = n by omega]
  exact ⟨fun h => ⟨by omega, h⟩, fun h => h.2⟩

/-! ## The loop -/

namespace NgramSearch

variable {tokens : List τ} {s : NgramSearch}

/-- What holds before every turn of the loop. -/
structure Invariant (tokens : List τ) (maxNgram : Nat) (s : NgramSearch) : Prop where
  inside : s.i ≤ tokens.length
  below : s.prevLps < maxNgram
  border : Border tokens s.i s.prevLps
  /-- Longer borders of the tokens up to here do not go on with the next token. -/
  tried : ∀ v, v < maxNgram → Border tokens s.i v → s.prevLps < v → tokens[v]? ≠ tokens[s.i]?
  length : s.lps.length = maxNgram
  lps : ∀ j, j < s.i → j < maxNgram → LongestBorder tokens (j + 1) (s.lps.getD j 0)
  unset : ∀ j, s.i ≤ j → s.lps.getD j 0 = 0
  best : ∀ m v, m ≤ s.i → v ≤ maxNgram → Border tokens m v → 0 < v →
    v ≤ s.longestNgram ∧ (v = s.longestNgram → m ≤ s.position + 1)
  found : 0 < s.longestNgram →
    s.longestNgram ≤ maxNgram ∧ s.position < s.i ∧ Border tokens (s.position + 1) s.longestNgram

/-- How many turns are left at most. -/
def turns (tokens : List τ) (s : NgramSearch) : Nat := 2 * (tokens.length - s.i) + s.prevLps

theorem getD_replicate_zero (n j : Nat) : (List.replicate n 0).getD j 0 = 0 := by
  rw [List.getD_eq_getElem?_getD, List.getElem?_replicate]
  split <;> rfl

section

omit [DecidableEq τ]

theorem invariant_start (hmax : 0 < maxNgram) (htokens : tokens ≠ []) :
    Invariant tokens maxNgram { lps := List.replicate maxNgram 0 } where
  inside := List.length_pos_iff.mpr htokens
  below := hmax
  border := .zero Nat.one_pos
  tried v _ h _ := by
    have hv : v < 1 := h.1
    omega
  length := List.length_replicate
  lps j hj _ := by
    obtain rfl : j = 0 := Nat.lt_one_iff.mp hj
    rw [getD_replicate_zero]
    exact longestBorder_one
  unset j _ := getD_replicate_zero maxNgram j
  best m v hm _ h hv := by
    have hlt := h.1
    simp only at hm
    omega
  found h := absurd h (Nat.lt_irrefl 0)

/-- A token that extends the border makes the longest border of the tokens behind it. -/
theorem longest_of_extend (h : s.Invariant tokens maxNgram) (hi : s.i < tokens.length) {v : Nat}
    (hv : v ≤ maxNgram) (hborder : Border tokens (s.i + 1) v) : v ≤ s.prevLps + 1 := by
  by_contra hlt
  obtain ⟨w, rfl⟩ : ∃ w, v = w + 1 := ⟨v - 1, by omega⟩
  have hw : w < s.i := Nat.lt_of_succ_lt_succ hborder.1
  obtain ⟨hold, hnext⟩ := (border_succ hi hw).mp hborder
  exact h.tried w (by omega) hold (by omega) hnext

theorem Invariant.extend (h : s.Invariant tokens maxNgram) (hi : s.i < tokens.length)
    (hmatch : tokens[s.prevLps]? = tokens[s.i]?) : (s.extend maxNgram).Invariant tokens maxNgram := by
  have hnew : Border tokens (s.i + 1) (s.prevLps + 1) := (border_succ hi h.border.1).mpr ⟨h.border, hmatch⟩
  have hlps : (s.extend maxNgram).lps = if s.i < maxNgram then s.lps.set s.i (s.prevLps + 1) else s.lps := rfl
  have hset : ∀ j, j ≠ s.i → (s.extend maxNgram).lps.getD j 0 = s.lps.getD j 0 := by
    intro j hj
    rw [hlps]
    split
    · rw [List.getD_eq_getElem?_getD, List.getElem?_set_ne (Ne.symm hj), List.getD_eq_getElem?_getD]
    · rfl
  -- the cap: the next border to try is the longest one of a match of full length
  have hcap : s.prevLps + 1 = maxNgram →
      LongestBorder tokens maxNgram ((s.extend maxNgram).lps.getD (maxNgram - 1) 0) := by
    intro hfull
    have hlt := h.border.1
    have hlast := h.lps (maxNgram - 1) (by omega) (by omega)
    rw [Nat.sub_add_cancel (by omega)] at hlast
    rw [hset _ (by omega)]
    exact hlast
  have hprev : (s.extend maxNgram).prevLps =
      if s.prevLps + 1 = maxNgram then (s.extend maxNgram).lps.getD (maxNgram - 1) 0 else s.prevLps + 1 := rfl
  have hbelow := h.below
  refine ⟨hi, ?_, ?_, ?_, ?_, ?_, ?_, ?_, ?_⟩
  · rw [hprev]
    split
    case isTrue hfull => exact (hcap hfull).1.1
    case isFalse => omega
  · rw [hprev]
    split
    case isTrue hfull => exact hnew.trans (hfull ▸ (hcap hfull).1)
    case isFalse => exact hnew
  · intro v hv hborder hlt
    rw [hprev] at hlt
    split at hlt
    case isTrue hfull =>
      have hle := (hcap hfull).le_of_lt (hfull ▸ hnew) hborder hv
      omega
    case isFalse =>
      have hle := longest_of_extend h hi hv.le hborder
      omega
  · rw [hlps]
    split
    · rw [List.length_set]
      exact h.length
    · exact h.length
  · intro j hj hjmax
    by_cases hji : j = s.i
    · subst hji
      have hget : (s.extend maxNgram).lps.getD s.i 0 = s.prevLps + 1 := by
        rw [hlps, if_pos hjmax, List.getD_eq_getElem?_getD, List.getElem?_set_self (by rw [h.length]; exact hjmax)]
        rfl
      rw [hget]
      exact ⟨hnew, fun w hw => longest_of_extend h hi (by have := hw.1; omega) hw⟩
    · rw [hset j hji]
      exact h.lps j (by have : j < s.i + 1 := hj; omega) hjmax
  · intro j hj
    have hj' : s.i + 1 ≤ j := hj
    rw [hset j (by omega)]
    exact h.unset j (by omega)
  · intro m v hm hv hborder hpos
    have hm' : m ≤ s.i + 1 := hm
    show v ≤ (if s.longestNgram ≤ s.prevLps + 1 then s.prevLps + 1 else s.longestNgram) ∧
      (v = (if s.longestNgram ≤ s.prevLps + 1 then s.prevLps + 1 else s.longestNgram) →
        m ≤ (if s.longestNgram ≤ s.prevLps + 1 then s.i else s.position) + 1)
    by_cases hlast : m = s.i + 1
    · subst hlast
      have hle := longest_of_extend h hi hv hborder
      split <;> omega
    · obtain ⟨hle, hpos'⟩ := h.best m v (by omega) hv hborder hpos
      split <;> omega
  · intro _
    show (if s.longestNgram ≤ s.prevLps + 1 then s.prevLps + 1 else s.longestNgram) ≤ maxNgram ∧
      (if s.longestNgram ≤ s.prevLps + 1 then s.i else s.position) < s.i + 1 ∧
      Border tokens ((if s.longestNgram ≤ s.prevLps + 1 then s.i else s.position) + 1)
        (if s.longestNgram ≤ s.prevLps + 1 then s.prevLps + 1 else s.longestNgram)
    split
    · exact ⟨by omega, by omega, hnew⟩
    · obtain ⟨hle, hlt, hborder⟩ := h.found (by omega)
      exact ⟨hle, by omega, hborder⟩

end

section

variable (h : s.Invariant tokens maxNgram)
include h

/-- Every turn of the loop keeps the invariant. -/
theorem Invariant.step (hi : s.i < tokens.length) : (s.step tokens maxNgram).Invariant tokens maxNgram := by
  rw [NgramSearch.step]
  split
  case isTrue hmatch => exact h.extend hi hmatch
  case isFalse hmiss =>
    split
    case isTrue hpos =>
      -- the next longest border
      have hlt := h.border.1
      have hbelow := h.below
      have hlongest := h.lps (s.prevLps - 1) (by omega) (by omega)
      rw [Nat.sub_add_cancel (by omega)] at hlongest
      refine { h with below := ?_, border := h.border.trans hlongest.1, tried := ?_ }
      · exact hlongest.1.1.trans h.below
      · intro v hv hborder hlt
        rcases Nat.lt_trichotomy v s.prevLps with hless | rfl | hmore
        · have hle := hlongest.le_of_lt h.border hborder hless
          simp only at hlt
          omega
        · exact hmiss
        · exact h.tried v hv hborder hmore
    case isFalse hzero =>
      have hnone : ∀ v, v ≤ maxNgram → Border tokens (s.i + 1) v → v = 0 := by
        intro v hv hborder
        by_contra hne
        obtain ⟨w, rfl⟩ : ∃ w, v = w + 1 := ⟨v - 1, by omega⟩
        have hw : w < s.i := Nat.lt_of_succ_lt_succ hborder.1
        obtain ⟨hold, hnext⟩ := (border_succ hi hw).mp hborder
        rcases Nat.eq_zero_or_pos w with rfl | hpos
        · exact hmiss (by rw [show s.prevLps = 0 by omega]; exact hnext)
        · exact h.tried w (by omega) hold (by omega) hnext
      have hprev : s.prevLps = 0 := by omega
      refine { h with inside := hi, border := ?_, tried := ?_, lps := ?_, unset := ?_, best := ?_, found := ?_ }
      · rw [hprev]
        exact .zero (Nat.succ_pos _)
      · intro v hv hborder hlt
        have hv0 := hnone v hv.le hborder
        omega
      · intro j hj hjmax
        have hj' : j < s.i + 1 := hj
        by_cases hji : j = s.i
        · subst hji
          rw [h.unset s.i (Nat.le_refl _)]
          exact ⟨.zero (Nat.succ_pos _), fun w hw => (hnone w (by have := hw.1; omega) hw).le⟩
        · exact h.lps j (by omega) hjmax
      · intro j hj
        have hj' : s.i + 1 ≤ j := hj
        exact h.unset j (by omega)
      · intro m v hm hv hborder hpos
        have hm' : m ≤ s.i + 1 := hm
        by_cases hlast : m = s.i + 1
        · have hv0 := hnone v hv (hlast ▸ hborder)
          omega
        · exact h.best m v (by omega) hv hborder hpos
      · intro hpos
        obtain ⟨hle, hlt, hborder⟩ := h.found hpos
        exact ⟨hle, Nat.lt_succ_of_lt hlt, hborder⟩

theorem turns_step (hi : s.i < tokens.length) : (s.step tokens maxNgram).turns tokens < s.turns tokens := by
  rw [NgramSearch.step]
  split
  case isTrue hmatch =>
    have hbelow := (h.extend hi hmatch).below
    have hprev : (s.extend maxNgram).prevLps ≤ s.prevLps + 1 := by
      show (if s.prevLps + 1 = maxNgram then (s.extend maxNgram).lps.getD (maxNgram - 1) 0 else s.prevLps + 1) ≤ _
      split
      case isTrue hfull =>
        have hlt : (s.extend maxNgram).prevLps < maxNgram := hbelow
        simp only [NgramSearch.extend, if_pos hfull] at hlt ⊢
        omega
      case isFalse => exact Nat.le_refl _
    have hnext : (s.extend maxNgram).i = s.i + 1 := rfl
    rw [turns, turns]
    omega
  case isFalse =>
    split
    case isTrue hpos =>
      have hlt := h.border.1
      have hbelow := h.below
      have hlongest := h.lps (s.prevLps - 1) (by omega) (by omega)
      have hless := hlongest.1.1
      simp only [turns]
      omega
    case isFalse =>
      simp only [turns]
      omega

/-- The loop ends, with its invariant, at the end of the tokens. -/
theorem loop_spec {fuel : Nat} (hfuel : s.turns tokens ≤ fuel) :
    ∃ s', loop tokens maxNgram fuel s = some s' ∧ s'.Invariant tokens maxNgram ∧ s'.i = tokens.length := by
  induction fuel generalizing s with
  | zero =>
    have hinside := h.inside
    have hend : s.i = tokens.length := by
      rw [turns] at hfuel
      omega
    exact ⟨s, by rw [loop, if_neg (by omega)], h, hend⟩
  | succ fuel ih =>
    by_cases hi : s.i < tokens.length
    · have hless := turns_step h hi
      obtain ⟨s', hloop, hs'⟩ := ih (h.step hi) (by omega)
      exact ⟨s', by rw [loop, if_pos hi, hloop], hs'⟩
    · have hinside := h.inside
      exact ⟨s, by rw [loop, if_neg hi], h, by omega⟩

end

end NgramSearch

/-! ## The proposer and the naive search -/

/-- The search finds what the naive search finds. -/
theorem longestMatch_of_invariant {s : NgramSearch} (hmin : 0 < minNgram)
    (h : s.Invariant originTokens.reverse maxNgram) (hend : s.i = originTokens.length) :
    longestMatch originTokens minNgram maxNgram =
      if s.longestNgram < minNgram then none
      else some (s.longestNgram, originTokens.length - 1 - s.position) := by
  have hbest : ∀ n p, n ≤ maxNgram → 0 < n → OccursAt originTokens n p →
      n ≤ s.longestNgram ∧ (n = s.longestNgram → originTokens.length - p ≤ s.position + 1) := by
    intro n p hn hpos hoccurs
    exact h.best _ n (by omega) hn (occursAt_iff_border.mp hoccurs).2 hpos
  split
  case isTrue hshort =>
    refine longestMatch_eq_none fun n p hlow hhigh hoccurs => ?_
    have hle := (hbest n p hhigh (by omega) hoccurs).1
    omega
  case isFalse hlong =>
    obtain ⟨hle, hposition, hborder⟩ := h.found (by omega)
    have hlt := hborder.1
    have hback : originTokens.length - (originTokens.length - 1 - s.position) = s.position + 1 := by omega
    have hoccurs : OccursAt originTokens s.longestNgram (originTokens.length - 1 - s.position) :=
      occursAt_iff_border.mpr ⟨by omega, by rw [hback]; exact hborder⟩
    refine longestMatch_eq_some (by omega) (by omega) hle hoccurs ?_ ?_
    · intro p' hoccurs'
      have hlate := (hbest _ p' hle (by omega) hoccurs').2 rfl
      omega
    · intro n' p' hn' hoccurs'
      rcases Nat.eq_zero_or_pos n' with rfl | hpos
      · exact Nat.zero_le _
      · exact (hbest n' p' hn' hpos hoccurs').1

/-- The proposer ends, and returns what followed the first earlier occurrence of the longest suffix that has one. -/
theorem ngram_proposer (originTokens : List τ) {minNgram maxNgram : Nat} (hmin : 1 ≤ minNgram)
    (hmax : minNgram ≤ maxNgram) (maxModelLen k : Int) :
    findLongestMatchedNgramAndProposeTokens originTokens minNgram maxNgram maxModelLen k =
      some (proposal originTokens minNgram maxNgram maxModelLen k) := by
  rw [findLongestMatchedNgramAndProposeTokens]
  simp only
  split
  case isTrue hshort =>
    have hnone : longestMatch originTokens minNgram maxNgram = none := by
      refine longestMatch_eq_none fun n p hlow _ hoccurs => ?_
      have hin := hoccurs.1
      omega
    rw [proposal, hnone]
  case isFalse hlong =>
    split
    case isTrue hk =>
      rw [proposal]
      split
      · rfl
      · rw [Int.toNat_of_nonpos hk, List.take_zero]
    case isFalse hk =>
      have hne : originTokens.reverse ≠ [] := by
        rw [Ne, ← List.length_eq_zero_iff, List.length_reverse]
        omega
      obtain ⟨s, hloop, hs, hend⟩ := NgramSearch.loop_spec
        (NgramSearch.invariant_start (by omega : 0 < maxNgram) hne)
        (show NgramSearch.turns originTokens.reverse _ ≤ 2 * originTokens.length by
          simp only [NgramSearch.turns, List.length_reverse]
          omega)
      rw [List.length_reverse] at hend
      have hfound := longestMatch_of_invariant hmin hs hend
      rw [hloop, proposal, hfound]
      show (if s.longestNgram < minNgram then some [] else _) = _
      split
      · rfl
      case isFalse hfit =>
        obtain ⟨hle, hposition, hborder⟩ := hs.found (by omega)
        have hstart : ((originTokens.length : Int) - 1 - s.position + s.longestNgram).toNat =
            originTokens.length - 1 - s.position + s.longestNgram := by omega
        simp only [hstart]
        congr 1
        rw [List.take_eq_take_iff, List.length_drop]
        omega

/-- After `1 2 3 1 2`, the longest suffix that occurs before is `1 2`. -/
theorem ngram_proposer_repeats : findLongestMatchedNgramAndProposeTokens [1, 2, 3, 1, 2] 1 3 10 2 = some [3, 1] :=
  (ngram_proposer [1, 2, 3, 1, 2] (by decide) (by decide) 10 2).trans (by decide)

end Yuan.SpecDecode
