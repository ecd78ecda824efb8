import Yuan.Core.StopCheck
import Yuan.Lib.Repeats

/-!
# Repetition detection

`check_sequence_repetition` on lists of any tokens and on any integers, with the exceptions of its indexing. It detects
the repeated tails, and no index is out of range, so that it is the check of `check_stop`.
-/

namespace Yuan.Core.Repetition

variable {α : Type} [DecidableEq α] {tokenIds : List α}

/-! ## The code -/

/-- `l[i]`; a negative index counts from the end. -/
def pyGetItem (l : List α) (i : Int) : Except PyError α :=
  match if i < 0 then l.length + i else i with
  | .ofNat j =>
    match l[j]? with
    | some a => .ok a
    | none => .error (.indexError "list index out of range")
  | .negSucc _ => .error (.indexError "list index out of range")

/-- `range(start, stop)`. -/
def pyRange (start stop : Int) : List Int := (List.range (stop - start).toNat).map fun i : Nat => start + i

/-- The parameters of the detection. -/
structure Params where
  maxPatternSize : Int
  minPatternSize : Int
  minCount : Int
  deriving DecidableEq, Repr

/-- The inner loop of `_has_repeating_pattern`. -/
def columnLoop (tokenIds : List α) (patternLen n : Int) (targetToken : α) : List Int → Except PyError Bool
  | [] => .ok true
  | m :: ms => do
      let token ← pyGetItem tokenIds (-(patternLen * m + n))
      if token ≠ targetToken then return false
      else columnLoop tokenIds patternLen n targetToken ms

/-- The outer loop of `_has_repeating_pattern`. -/
def patternLoop (tokenIds : List α) (patternLen repetitionMinCount : Int) : List Int → Except PyError Bool
  | [] => .ok true
  | n :: ns => do
      let targetToken ← pyGetItem tokenIds (-n)
      if ← columnLoop tokenIds patternLen n targetToken (pyRange 1 repetitionMinCount) then
        patternLoop tokenIds patternLen repetitionMinCount ns
      else return false

/-- `_has_repeating_pattern`. -/
def hasRepeatingPattern (tokenIds : List α) (patternLen repetitionMinCount : Int) : Except PyError Bool :=
  patternLoop tokenIds patternLen repetitionMinCount (pyRange 1 (patternLen + 1))

/-- The loop of `check_sequence_repetition` over the pattern lengths. -/
def lengthLoop (tokenIds : List α) (minCount : Int) : List Int → Except PyError Bool
  | [] => .ok false
  | patternLen :: rest => do
      if patternLen * minCount > tokenIds.length then return false
      else if ← hasRepeatingPattern tokenIds patternLen minCount then return true
      else lengthLoop tokenIds minCount rest

/-- `check_sequence_repetition`. -/
def checkSequenceRepetition (tokenIds : List α) (params : Params) : Except PyError Bool :=
  let minPatternSize := if params.minPatternSize ≤ 0 then 1 else params.minPatternSize
  if params.maxPatternSize ≤ 0 ∨ params.minCount < 2 ∨ minPatternSize > params.maxPatternSize then .ok false
  else lengthLoop tokenIds params.minCount (pyRange minPatternSize (params.maxPatternSize + 1))

/-! ## Repeated tails -/

/-- The last `patternLen * count` tokens are `count` copies of one block of length `patternLen`. -/
def RepeatedTail (tokenIds : List α) (patternLen count : Int) : Prop :=
  patternLen * count ≤ tokenIds.length ∧ ∃ block : List α, block.length = patternLen ∧
    tokenIds.drop (tokenIds.length - (patternLen * count).toNat) = copies count.toNat block

theorem mem_pyRange {start stop i : Int} : i ∈ pyRange start stop ↔ start ≤ i ∧ i < stop := by
  unfold pyRange
  simp only [List.mem_map, List.mem_range]
  constructor
  · rintro ⟨j, hj, rfl⟩
    omega
  · rintro ⟨hstart, hstop⟩
    exact ⟨(i - start).toNat, by omega, by omega⟩

theorem pairwise_pyRange (start stop : Int) : (pyRange start stop).Pairwise (· < ·) :=
  List.pairwise_map.mpr (List.pairwise_lt_range.imp fun h => by omega)

omit [DecidableEq α] in
/-- An index from the end, of a token that there is. -/
theorem pyGetItem_neg {i : Int} (hpos : 0 < i) (hle : i ≤ tokenIds.length) :
    ∃ token, pyGetItem tokenIds (-i) = .ok token ∧ tokenIds[tokenIds.length - i.toNat]? = some token := by
  have hindex : (if -i < 0 then (tokenIds.length : Int) + -i else -i) = .ofNat (tokenIds.length - i.toNat) := by
    rw [if_pos (by omega)]
    simp only [Int.ofNat_eq_natCast]
    omega
  have hlt : tokenIds.length - i.toNat < tokenIds.length := by omega
  refine ⟨tokenIds[tokenIds.length - i.toNat], ?_, List.getElem?_eq_getElem hlt⟩
  rw [pyGetItem, hindex]
  dsimp only
  rw [List.getElem?_eq_getElem hlt]

theorem columnLoop_spec {patternLen n : Int} (targetToken : α) {ms : List Int}
    (hrange : ∀ m ∈ ms, 0 < patternLen * m + n ∧ patternLen * m + n ≤ tokenIds.length) :
    ∃ b, columnLoop tokenIds patternLen n targetToken ms = .ok b ∧
      (b = true ↔ ∀ m ∈ ms, tokenIds[tokenIds.length - (patternLen * m + n).toNat]? = some targetToken) := by
  induction ms with
  | nil => exact ⟨true, rfl, by simp⟩
  | cons m ms ih =>
    obtain ⟨b, hb, hiff⟩ := ih fun m' h => hrange m' (List.mem_cons_of_mem m h)
    obtain ⟨hpos, hle⟩ := hrange m List.mem_cons_self
    obtain ⟨token, hget, htoken⟩ := pyGetItem_neg hpos hle
    rw [columnLoop, hget, ok_bind]
    by_cases heq : token = targetToken
    · rw [if_neg (not_not.mpr heq)]
      refine ⟨b, hb, ?_⟩
      rw [List.forall_mem_cons, htoken, hiff, heq]
      simp
    · rw [if_pos heq]
      refine ⟨false, rfl, ?_⟩
      rw [List.forall_mem_cons, htoken]
      simp [heq]

theorem patternLoop_spec {patternLen count : Int} (hlen : 0 < patternLen) (hcount : 1 ≤ count)
    (hfits : patternLen * count ≤ tokenIds.length) {ns : List Int} (hns : ∀ n ∈ ns, 1 ≤ n ∧ n ≤ patternLen) :
    ∃ b, patternLoop tokenIds patternLen count ns = .ok b ∧
      (b = true ↔ ∀ n ∈ ns, ∀ m ∈ pyRange 1 count,
        tokenIds[tokenIds.length - (patternLen * m + n).toNat]? = tokenIds[tokenIds.length - n.toNat]?) := by
  induction ns with
  | nil => exact ⟨true, rfl, by simp⟩
  | cons n ns ih =>
    obtain ⟨b, hb, hiff⟩ := ih fun n' h => hns n' (List.mem_cons_of_mem n h)
    obtain ⟨hpos, hle⟩ := hns n List.mem_cons_self
    have hrange : ∀ m ∈ pyRange 1 count, 0 < patternLen * m + n ∧ patternLen * m + n ≤ tokenIds.length := by
      intro m hm
      obtain ⟨hone, hlt⟩ := mem_pyRange.mp hm
      have hproduct : patternLen * (m + 1) ≤ patternLen * count := Int.mul_le_mul_of_nonneg_left hlt hlen.le
      have hnonneg : 0 ≤ patternLen * m := Int.mul_nonneg hlen.le (by omega)
      rw [Int.mul_add] at hproduct
      omega
    have hself : patternLen ≤ patternLen * count := by
      have h := Int.mul_le_mul_of_nonneg_left hcount hlen.le
      rwa [Int.mul_one] at h
    obtain ⟨targetToken, hget, htarget⟩ := pyGetItem_neg (by omega : 0 < n) (by omega : n ≤ tokenIds.length)
    obtain ⟨column, hcolumn, hcolumns⟩ := columnLoop_spec targetToken hrange
    rw [patternLoop, hget, ok_bind, hcolumn, ok_bind, List.forall_mem_cons, htarget]
    cases column with
    | true => exact ⟨b, hb, by rw [hiff]; exact ⟨fun h => ⟨hcolumns.mp rfl, h⟩, And.right⟩⟩
    | false => exact ⟨false, rfl, by simpa using fun h => absurd (hcolumns.mpr h) Bool.false_ne_true⟩

/-- A token of the tail, counted from the end and from its beginning. -/
theorem sub_fromEnd {len size rest m k : Nat} (hk : k < size) (hm : m ≤ rest) (hfits : size * (rest + 1) ≤ len) :
    len - (((size : Nat) : Int) * ((rest - m : Nat) : Int) + ((size - k : Nat) : Int)).toNat
      = len - size * (rest + 1) + (size * m + k) := by
  obtain ⟨d, rfl⟩ := Nat.exists_eq_add_of_le hm
  rw [Nat.add_sub_cancel_left]
  rw [Nat.mul_succ, Nat.mul_add] at hfits ⊢
  omega

/-- Where the copies fit, the comparison is that of the columns. -/
theorem hasRepeatingPattern_spec {patternLen count : Int} (hlen : 0 < patternLen) (hcount : 2 ≤ count)
    (hfits : patternLen * count ≤ tokenIds.length) :
    ∃ b, hasRepeatingPattern tokenIds patternLen count = .ok b ∧
      (b = true ↔ RepeatedTail tokenIds patternLen count) := by
  have hns : ∀ n ∈ pyRange 1 (patternLen + 1), 1 ≤ n ∧ n ≤ patternLen := by
    intro n hn
    rw [mem_pyRange] at hn
    omega
  obtain ⟨b, hb, hiff⟩ := patternLoop_spec hlen (by omega) hfits hns
  refine ⟨b, hb, hiff.trans ?_⟩
  obtain ⟨size, rfl⟩ := Int.eq_ofNat_of_zero_le hlen.le
  obtain ⟨rest, rfl⟩ : ∃ rest : Nat, count = (rest + 1 : Nat) := ⟨(count - 1).toNat, by omega⟩
  have hproduct : ((size : Int) * ((rest + 1 : Nat) : Int)).toNat = size * (rest + 1) := by
    rw [← Int.natCast_mul, Int.toNat_natCast]
  have hfitsNat : size * (rest + 1) ≤ tokenIds.length := by omega
  have htail : (tokenIds.drop (tokenIds.length - size * (rest + 1))).length = size * (rest + 1) := by
    rw [List.length_drop]
    omega
  have hcopies := eq_copies_iff htail
  rw [RepeatedTail, hproduct, Int.toNat_natCast]
  simp only [Nat.cast_inj, hfits, true_and]
  rw [hcopies]
  -- column `k` of the blocks is compared as token `size - k` from the end
  simp only [List.getElem?_drop]
  constructor
  · intro h k hk m hm
    have hcell := h ((size - k : Nat) : Int) (mem_pyRange.mpr (by omega)) ((rest - m : Nat) : Int)
      (mem_pyRange.mpr (by omega))
    have hlast := sub_fromEnd hk le_rfl hfitsNat
    rw [Nat.sub_self, Nat.cast_zero, Int.mul_zero, Int.zero_add] at hlast
    rwa [sub_fromEnd hk hm.le hfitsNat, hlast] at hcell
  · intro h n hn m hm
    rw [mem_pyRange] at hn hm
    obtain ⟨k, hk, rfl⟩ : ∃ k, k < size ∧ n = ((size - k : Nat) : Int) := ⟨size - n.toNat, by omega, by omega⟩
    obtain ⟨j, hj, rfl⟩ : ∃ j, j < rest ∧ m = ((rest - j : Nat) : Int) := ⟨rest - m.toNat, by omega, by omega⟩
    have hlast := sub_fromEnd hk le_rfl hfitsNat
    rw [Nat.sub_self, Nat.cast_zero, Int.mul_zero, Int.zero_add] at hlast
    rw [sub_fromEnd hk hj.le hfitsNat, hlast]
    exact h k hk j hj

/-- The lengths come in increasing order: behind one whose copies do not fit, none fit. -/
theorem lengthLoop_spec (tokenIds : List α) {minCount : Int} (hcount : 2 ≤ minCount) {lens : List Int}
    (hpos : ∀ patternLen ∈ lens, 0 < patternLen) (hsorted : lens.Pairwise (· < ·)) :
    ∃ b, lengthLoop tokenIds minCount lens = .ok b ∧
      (b = true ↔ ∃ patternLen ∈ lens, RepeatedTail tokenIds patternLen minCount) := by
  induction lens with
  | nil => exact ⟨false, rfl, by simp⟩
  | cons patternLen rest ih =>
    obtain ⟨hfirst, hrest⟩ := List.pairwise_cons.mp hsorted
    obtain ⟨b, hb, hiff⟩ := ih (fun l h => hpos l (List.mem_cons_of_mem patternLen h)) hrest
    rw [lengthLoop]
    by_cases hfits : patternLen * minCount > tokenIds.length
    · rw [if_pos hfits]
      refine ⟨false, rfl, ⟨fun h => (nomatch h), ?_⟩⟩
      rintro ⟨l, hl, htail, -⟩
      have hle : patternLen ≤ l := by
        rcases List.mem_cons.mp hl with rfl | hl
        · exact le_rfl
        · exact (hfirst l hl).le
      have hmul : patternLen * minCount ≤ l * minCount := Int.mul_le_mul_of_nonneg_right hle (by omega)
      omega
    · rw [if_neg hfits]
      obtain ⟨found, hfound, hrepeated⟩ :=
        hasRepeatingPattern_spec (hpos patternLen List.mem_cons_self) hcount (not_lt.mp hfits)
      rw [hfound]
      cases found with
      | true => exact ⟨true, rfl, fun _ => ⟨patternLen, List.mem_cons_self, hrepeated.mp rfl⟩, fun _ => rfl⟩
      | false =>
        refine ⟨b, hb, hiff.trans ⟨?_, ?_⟩⟩
        · rintro ⟨l, hl, htail⟩
          exact ⟨l, List.mem_cons_of_mem patternLen hl, htail⟩
        · rintro ⟨l, hl, htail⟩
          rcases List.mem_cons.mp hl with rfl | hl
          · exact absurd (hrepeated.mpr htail) Bool.false_ne_true
          · exact ⟨l, hl, htail⟩

/-- The check returns on every list and for all parameters, and detects the repeated tails. -/
theorem checkSequenceRepetition_iff (tokenIds : List α) (params : Params) :
    ∃ b, checkSequenceRepetition tokenIds params = .ok b ∧
      (b = true ↔ 2 ≤ params.minCount ∧ ∃ patternLen, max 1 params.minPatternSize ≤ patternLen ∧
        patternLen ≤ params.maxPatternSize ∧ RepeatedTail tokenIds patternLen params.minCount) := by
  have hmin : (if params.minPatternSize ≤ 0 then 1 else params.minPatternSize) = max 1 params.minPatternSize := by
    split_ifs <;> omega
  unfold checkSequenceRepetition
  dsimp only
  rw [hmin]
  split_ifs with hoff
  · refine ⟨false, rfl, ⟨fun h => (nomatch h), ?_⟩⟩
    rintro ⟨hcount, patternLen, hle, hmax, -⟩
    omega
  · rw [not_or] at hoff
    have hpos : ∀ l ∈ pyRange (max 1 params.minPatternSize) (params.maxPatternSize + 1), 0 < l := by
      intro l hl
      rw [mem_pyRange] at hl
      omega
    have hcount : 2 ≤ params.minCount := by omega
    obtain ⟨b, hb, hiff⟩ := lengthLoop_spec tokenIds hcount hpos (pairwise_pyRange _ _)
    refine ⟨b, hb, hiff.trans ⟨?_, ?_⟩⟩
    · rintro ⟨l, hl, htail⟩
      rw [mem_pyRange] at hl
      exact ⟨by omega, l, hl.1, by omega, htail⟩
    · rintro ⟨-, l, hle, hmax, htail⟩
      exact ⟨l, mem_pyRange.mpr ⟨hle, by omega⟩, htail⟩

/-! ## The check of `check_stop` -/

theorem pyRange_natCast (start stop : Nat) :
    pyRange start stop = (List.range' start (stop - start)).map fun i : Nat => (i : Int) := by
  rw [pyRange, List.range'_eq_map_range, List.map_map]
  have hlen : ((stop : Int) - start).toNat = stop - start := by omega
  rw [hlen]
  exact List.map_congr_left fun i _ => (Nat.cast_add start i).symm

theorem hasRepeatingPattern_eq {tokenIds : List Nat} {patternLen count : Nat} (hlen : 0 < patternLen)
    (hcount : 2 ≤ count) (hfits : patternLen * count ≤ tokenIds.length) :
    hasRepeatingPattern tokenIds (patternLen : Int) (count : Int)
      = .ok (Core.hasRepeatingPattern tokenIds patternLen count) := by
  have hfits' : (patternLen : Int) * (count : Int) ≤ tokenIds.length := by exact_mod_cast hfits
  have hns : ∀ n ∈ pyRange 1 ((patternLen : Int) + 1), 1 ≤ n ∧ n ≤ (patternLen : Int) := by grind [mem_pyRange]
  obtain ⟨b, hb, hiff⟩ := patternLoop_spec (by omega) (by omega) hfits' hns
  have hrows : pyRange 1 ((patternLen : Int) + 1) = _ := pyRange_natCast 1 (patternLen + 1)
  rw [hasRepeatingPattern, hb]
  rw [hrows, show pyRange 1 (count : Int) = _ from pyRange_natCast 1 count] at hiff
  refine congrArg Except.ok (Bool.eq_iff_iff.mpr (hiff.trans ?_))
  rw [Core.hasRepeatingPattern, List.all_eq_true, List.forall_mem_map]
  refine forall₂_congr fun n _ => ?_
  rw [List.all_eq_true, List.forall_mem_map]
  refine forall₂_congr fun m _ => ?_
  rw [decide_eq_true_eq]
  rfl

theorem lengthLoop_eq {tokenIds : List Nat} {count : Nat} (hcount : 2 ≤ count) {lens : List Nat}
    (hpos : ∀ patternLen ∈ lens, 0 < patternLen) :
    lengthLoop tokenIds (count : Int) (lens.map fun i : Nat => (i : Int)) =
      .ok (repetitionLoop tokenIds count lens) := by
  induction lens with
  | nil => rfl
  | cons patternLen lens ih =>
    rw [List.map_cons, lengthLoop, repetitionLoop]
    by_cases hfits : patternLen * count > tokenIds.length
    · rw [if_pos hfits, if_pos (by exact_mod_cast hfits)]
      rfl
    · rw [if_neg hfits, if_neg (by exact_mod_cast hfits),
        hasRepeatingPattern_eq (hpos patternLen List.mem_cons_self) hcount (not_lt.mp hfits), ok_bind,
        ih fun l h => hpos l (List.mem_cons_of_mem patternLen h)]
      split <;> rfl

/-- On the parameters of a request, the check is the one of `check_stop`. -/
theorem checkSequenceRepetition_eq (tokenIds : List Nat) (params : RepetitionDetectionParams) :
    checkSequenceRepetition tokenIds ⟨params.maxPatternSize, params.minPatternSize, params.minCount⟩
      = .ok (Core.checkSequenceRepetition tokenIds params) := by
  have hmin : (if (params.minPatternSize : Int) ≤ 0 then 1 else (params.minPatternSize : Int))
      = ((if params.minPatternSize = 0 then 1 else params.minPatternSize : Nat) : Int) := by
    split_ifs <;> omega
  have hpos : 0 < if params.minPatternSize = 0 then 1 else params.minPatternSize := by
    split_ifs <;> omega
  unfold checkSequenceRepetition Core.checkSequenceRepetition
  rw [hmin]
  generalize (if params.minPatternSize = 0 then 1 else params.minPatternSize) = minPatternSize at hpos ⊢
  dsimp only
  split_ifs
  · rfl
  · omega
  · omega
  · refine (congrArg _ (pyRange_natCast minPatternSize (params.maxPatternSize + 1))).trans
      (lengthLoop_eq (by omega) fun l hl => ?_)
    exact hpos.trans_le (List.mem_range'_1.mp hl).1

end Yuan.Core.Repetition
