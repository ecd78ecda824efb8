import Yuan.Lib.Find

/-!
# Stop strings

The incremental detokenizer appends the text of each new token to the output and looks for stop
strings in what is new. A token is given by the text it is decoded to. How the tokens are grouped
matters only where a stop string that completes later in a group is listed before those that complete
first: the search goes through the list of stop strings, not through the text.
-/

namespace Yuan.Core

variable {text stopStr piece : List Char} {searched : Nat} {stop : List (List Char)}

/-- What the detokenizer of a request reads of its sampling parameters. -/
structure StopParams where
  stop : List (List Char) := []
  minTokens : Nat := 0
  includeStopStrInOutput : Bool := false
  deriving DecidableEq, Repr

/-- The detokenizer's text, and the number of its output tokens. -/
structure BaseIncrementalDetokenizer where
  outputText : List Char := []
  numOutputTokens : Nat := 0
  deriving DecidableEq, Repr

/-- `check_stop_strings`: the first stop string in list order that is found, and the length to which
the text is cut, `-1` for no cut. -/
def checkStopStrings (outputText : List Char) (newCharCount : Int) (stop : List (List Char))
    (includeInOutput : Bool) : Option (List Char × Int) :=
  if newCharCount = 0 then none
  else stop.findSome? fun stopStr =>
    -- the search starts so early that a match may begin in old text
    match find outputText stopStr (1 - newCharCount - stopStr.length) with
    | none => none
    | some stopIndex =>
      if includeInOutput then
        if stopIndex + stopStr.length ≥ outputText.length then some (stopStr, -1)
        else some (stopStr, stopIndex + stopStr.length)
      else some (stopStr, stopIndex)

namespace BaseIncrementalDetokenizer

/-- Decodes the new tokens. Text of the first `min_tokens` tokens is not searched. -/
def decodeLoop (params : StopParams) :
    BaseIncrementalDetokenizer → Nat → List (List Char) → BaseIncrementalDetokenizer × Nat
  | d, stopCheckOffset, [] => (d, stopCheckOffset)
  | d, stopCheckOffset, piece :: pieces =>
    let d := ⟨d.outputText ++ piece, d.numOutputTokens + 1⟩
    decodeLoop params d
      (if params.minTokens ≠ 0 ∧ d.numOutputTokens ≤ params.minTokens then d.outputText.length
        else stopCheckOffset) pieces

/-- The second half of `update`: evaluates the stop strings. -/
def evaluateStop (params : StopParams) (d : BaseIncrementalDetokenizer) (stopCheckOffset : Nat) :
    BaseIncrementalDetokenizer × Option (List Char) :=
  if params.stop ≠ [] ∧ d.numOutputTokens > params.minTokens then
    match checkStopStrings d.outputText (d.outputText.length - stopCheckOffset) params.stop
      params.includeStopStrInOutput with
    | none => (d, none)
    | some (stopString, truncateTo) =>
      if truncateTo ≠ -1 then
        ({ d with outputText := d.outputText.take truncateTo.toNat }, some stopString)
      else (d, some stopString)
  else (d, none)

/-- `update`, for one group of tokens. A stop token that ends the request is not decoded, unless stop
strings belong to the output. -/
def update (params : StopParams) (d : BaseIncrementalDetokenizer) (pieces : List (List Char))
    (stopTerminated : Bool) : BaseIncrementalDetokenizer × Option (List Char) :=
  if pieces = [] then (d, none)
  else if stopTerminated && !params.includeStopStrInOutput then
    let (decoded, stopCheckOffset) := decodeLoop params d d.outputText.length pieces.dropLast
    evaluateStop params { decoded with numOutputTokens := decoded.numOutputTokens + 1 }
      stopCheckOffset
  else
    let (decoded, stopCheckOffset) := decodeLoop params d d.outputText.length pieces
    evaluateStop params decoded stopCheckOffset

/-- The groups one after another, until one returns a stop string. The stop token that may end the
request is the last token of the last group. -/
def feed (params : StopParams) : BaseIncrementalDetokenizer → List (List (List Char)) → Bool →
    BaseIncrementalDetokenizer × Option (List Char)
  | d, [], _ => (d, none)
  | d, group :: rest, stopTerminated =>
    match update params d group (stopTerminated && rest.isEmpty) with
    | (d, some stopString) => (d, some stopString)
    | (d, none) => feed params d rest stopTerminated

/-- What the caller sees: the stop string and the final text. -/
def outcome (result : BaseIncrementalDetokenizer × Option (List Char)) :
    Option (List Char) × List Char := (result.2, result.1.outputText)

/-- The tokens `pieces` are decoded, and nothing is found. -/
def decoded (d : BaseIncrementalDetokenizer) (pieces : List (List Char)) :
    BaseIncrementalDetokenizer :=
  ⟨d.outputText ++ pieces.flatten, d.numOutputTokens + pieces.length⟩

section

variable (d : BaseIncrementalDetokenizer)

@[simp] theorem decoded_nil : d.decoded [] = d := by
  simp [decoded]

@[simp] theorem decoded_decoded (pieces more : List (List Char)) :
    (d.decoded pieces).decoded more = d.decoded (pieces ++ more) := by
  simp [decoded, Nat.add_assoc]

@[simp] theorem outputText_decoded (pieces : List (List Char)) :
    (d.decoded pieces).outputText = d.outputText ++ pieces.flatten := rfl

@[simp] theorem numOutputTokens_decoded (pieces : List (List Char)) :
    (d.decoded pieces).numOutputTokens = d.numOutputTokens + pieces.length := rfl

end

end BaseIncrementalDetokenizer

/-! ## What a search finds -/

/-- An occurrence of `stopStr` ends within `piece`, which follows `text`. -/
def CompletesWith (stopStr text piece : List Char) : Prop :=
  ∃ i, OccursAt stopStr (text ++ piece) i ∧ text.length < i + stopStr.length

/-- The first occurrence of a stop string that ends behind the first `searched` characters. -/
def firstBehind (text stopStr : List Char) (searched : Nat) : Option Nat :=
  findFrom text stopStr (searched + 1 - stopStr.length)

/-- What `update` answers: the first stop string in list order that ends behind the first `searched`
characters of `text`, and the text cut at it. -/
def verdict (includeStop : Bool) (text : List Char) (searched : Nat) :
    List (List Char) → Option (List Char) × List Char
  | [] => (none, text)
  | stopStr :: stop =>
    match firstBehind text stopStr searched with
    | none => verdict includeStop text searched stop
    | some i => (some stopStr, text.take (if includeStop then i + stopStr.length else i))

section

variable (hne : stopStr ≠ [])
include hne

theorem firstBehind_eq_some {i : Nat} :
    firstBehind text stopStr searched = some i ↔ OccursAt stopStr text i ∧ searched < i + stopStr.length ∧
        ∀ j, j < i → OccursAt stopStr text j → j + stopStr.length ≤ searched := by
  rw [firstBehind, findFrom_eq_some]
  constructor
  · intro ⟨hstart, hend, hoccurs, hfirst⟩
    refine ⟨hoccurs, by omega, ?_⟩
    intro j hj hat
    by_contra hbehind
    exact hfirst j (by omega) hj hat
  · intro ⟨hoccurs, hbehind, hfirst⟩
    refine ⟨by omega, by have := hoccurs.length_le hne; omega, hoccurs, ?_⟩
    intro j hstart hj hat
    have := hfirst j hj hat
    omega

theorem firstBehind_eq_none :
    firstBehind text stopStr searched = none ↔ ∀ i, OccursAt stopStr text i → i + stopStr.length ≤ searched := by
  rw [firstBehind, findFrom_eq_none]
  constructor
  · intro h i hoccurs
    by_contra hbehind
    exact h i (by omega) (by have := hoccurs.length_le hne; omega) hoccurs
  · intro h i hstart _ hoccurs
    have := h i hoccurs
    omega

/-- A stop string is found behind `text` exactly if it completes with `piece`. -/
theorem completesWith_iff :
    CompletesWith stopStr text piece ↔ firstBehind (text ++ piece) stopStr text.length ≠ none := by
  rw [ne_eq, firstBehind_eq_none hne]
  constructor
  · intro ⟨i, hoccurs, hbehind⟩ hnone
    have := hnone i hoccurs
    omega
  · intro h
    by_contra hnone
    apply h
    intro i hoccurs
    by_contra hbehind
    exact hnone ⟨i, hoccurs, by omega⟩

/-- More text does not change what was found. -/
theorem firstBehind_append {i : Nat} (h : firstBehind text stopStr searched = some i) (more : List Char) :
    firstBehind (text ++ more) stopStr searched = some i := by
  rw [firstBehind_eq_some hne] at h ⊢
  obtain ⟨hoccurs, hbehind, hfirst⟩ := h
  have hlen := hoccurs.length_le hne
  refine ⟨hoccurs.append (by omega) more, hbehind, ?_⟩
  intro j hj hat
  exact hfirst j hj (hat.of_append (by omega))

theorem firstBehind_append_ne_none (h : firstBehind text stopStr searched ≠ none) (more : List Char) :
    firstBehind (text ++ more) stopStr searched ≠ none := by
  obtain ⟨i, hi⟩ := Option.ne_none_iff_exists'.mp h
  rw [firstBehind_append hne hi more]
  simp

/-- What is found only with more text ends in it. -/
theorem completesWith_of_append {later : List Char} (hnot : ¬ CompletesWith stopStr text piece) :
    firstBehind (text ++ piece ++ later) stopStr text.length ≠ none ↔ CompletesWith stopStr (text ++ piece) later := by
  constructor
  · intro h
    obtain ⟨i, hi⟩ := Option.ne_none_iff_exists'.mp h
    obtain ⟨hoccurs, hbehind, -⟩ := (firstBehind_eq_some hne).mp hi
    refine ⟨i, hoccurs, ?_⟩
    by_contra hin
    exact hnot ⟨i, hoccurs.of_append (by omega), hbehind⟩
  · intro ⟨i, hoccurs, hbehind⟩ hnone
    have := (firstBehind_eq_none hne).mp hnone i hoccurs
    rw [List.length_append] at hbehind
    omega

end

/-- Searching again what was searched without success changes nothing. -/
theorem verdict_eq_of_quiet (hstop : ∀ s ∈ stop, s ≠ []) {searched' : Nat} (hle : searched ≤ searched')
    (includeStop : Bool) (hquiet : ∀ s ∈ stop, ∀ i, OccursAt s text i → i + s.length ≤ searched' →
      i + s.length ≤ searched) : verdict includeStop text searched stop = verdict includeStop text searched' stop := by
  induction stop with
  | nil => rfl
  | cons stopStr stop ih =>
    have hne := hstop stopStr List.mem_cons_self
    have hsame : firstBehind text stopStr searched = firstBehind text stopStr searched' := by
      cases h : firstBehind text stopStr searched' with
      | none =>
        rw [firstBehind_eq_none hne] at h ⊢
        intro i hoccurs
        exact hquiet stopStr List.mem_cons_self i hoccurs (h i hoccurs)
      | some i =>
        rw [firstBehind_eq_some hne] at h ⊢
        obtain ⟨hoccurs, hbehind, hfirst⟩ := h
        refine ⟨hoccurs, by omega, ?_⟩
        intro j hj hat
        exact hquiet stopStr List.mem_cons_self j hat (hfirst j hj hat)
    rw [verdict, verdict, hsame,
      ih (fun s hs => hstop s (List.mem_cons_of_mem _ hs))
        (fun s hs => hquiet s (List.mem_cons_of_mem _ hs))]

/-- No stop string was completed. -/
theorem verdict_eq_none (hstop : ∀ s ∈ stop, s ≠ []) (includeStop : Bool)
    (h : ∀ s ∈ stop, ∀ i, OccursAt s text i → i + s.length ≤ searched) :
    verdict includeStop text searched stop = (none, text) := by
  induction stop with
  | nil => rfl
  | cons stopStr stop ih =>
    have hnone := (firstBehind_eq_none (hstop stopStr List.mem_cons_self)).mpr
      (h stopStr List.mem_cons_self)
    rw [verdict, hnone]
    exact ih (fun s hs => hstop s (List.mem_cons_of_mem _ hs))
      (fun s hs => h s (List.mem_cons_of_mem _ hs))

/-- A stop string was completed. -/
theorem verdict_ne_none (includeStop : Bool) (h : ∃ s ∈ stop, firstBehind text s searched ≠ none) :
    ∃ s ∈ stop, firstBehind text s searched ≠ none ∧ (verdict includeStop text searched stop).1 = some s := by
  induction stop with
  | nil =>
    obtain ⟨s, hs, -⟩ := h
    cases hs
  | cons stopStr stop ih =>
    cases hfound : firstBehind text stopStr searched with
    | some i =>
      refine ⟨stopStr, List.mem_cons_self, by rw [hfound]; simp, ?_⟩
      rw [verdict, hfound]
    | none =>
      obtain ⟨s, hs, hsfound⟩ := h
      rcases List.mem_cons.mp hs with rfl | hs
      · exact absurd hfound hsfound
      · obtain ⟨s', hs', hfound', hverdict⟩ := ih ⟨s, hs, hsfound⟩
        refine ⟨s', List.mem_cons_of_mem _ hs', hfound', ?_⟩
        rw [verdict, hfound]
        exact hverdict

/-- Every stop string that completes with later text has one listed at or before it that completes
with `piece`. -/
def ListedFirst (stop : List (List Char)) (text piece later : List Char) : Prop :=
  ∀ listedBefore stopStr listedBehind, stop = listedBefore ++ stopStr :: listedBehind →
    CompletesWith stopStr (text ++ piece) later →
      ∃ stopStr' ∈ listedBefore ++ [stopStr], CompletesWith stopStr' text piece

/-- A head that completes with `piece` is listed before all others. -/
theorem listedFirst_of_head (later : List Char) (h : CompletesWith stopStr text piece) :
    ListedFirst (stopStr :: stop) text piece later := by
  intro listedBefore stopStr' listedBehind hsplit _
  refine ⟨stopStr, ?_, h⟩
  rcases listedBefore with _ | ⟨head, listedBefore⟩
  · rw [(List.cons.inj hsplit).1]
    exact List.mem_cons_self
  · rw [(List.cons.inj hsplit).1]
    exact List.mem_cons_self

/-- A head that does not complete at all does not matter. -/
theorem listedFirst_cons {later : List Char} (hnot : ¬ CompletesWith stopStr text piece)
    (hlater : ¬ CompletesWith stopStr (text ++ piece) later) :
    ListedFirst (stopStr :: stop) text piece later ↔ ListedFirst stop text piece later := by
  constructor
  · intro h listedBefore stopStr' listedBehind hsplit hcomplete
    obtain ⟨s, hs, hwith⟩ := h (stopStr :: listedBefore) stopStr' listedBehind (by rw [hsplit]; rfl)
      hcomplete
    rcases List.mem_cons.mp hs with rfl | hs
    · exact absurd hwith hnot
    · exact ⟨s, hs, hwith⟩
  · intro h listedBefore stopStr' listedBehind hsplit hcomplete
    rcases listedBefore with _ | ⟨head, listedBefore⟩
    · rw [(List.cons.inj hsplit).1] at hlater
      exact absurd hcomplete hlater
    · obtain ⟨s, hs, hwith⟩ := h listedBefore stopStr' listedBehind (List.cons.inj hsplit).2 hcomplete
      exact ⟨s, List.mem_cons_of_mem _ hs, hwith⟩

/-- More text behind a completed stop string leaves the verdict alone exactly if no stop string
completed by it is listed first. -/
theorem verdict_append_iff (hstop : ∀ s ∈ stop, s ≠ []) (later : List Char) (includeStop : Bool)
    (hsome : ∃ s ∈ stop, CompletesWith s text piece) :
    verdict includeStop (text ++ piece ++ later) text.length stop =
        verdict includeStop (text ++ piece) text.length stop ↔ ListedFirst stop text piece later := by
  induction stop with
  | nil =>
    obtain ⟨s, hs, -⟩ := hsome
    cases hs
  | cons stopStr stop ih =>
    have hne := hstop stopStr List.mem_cons_self
    have hstop' : ∀ s ∈ stop, s ≠ [] := fun s hs => hstop s (List.mem_cons_of_mem _ hs)
    cases hfound : firstBehind (text ++ piece) stopStr text.length with
    | some i =>
      -- the head is found at the same place with and without the later text
      have hcomplete : CompletesWith stopStr text piece := by
        rw [completesWith_iff hne, hfound]
        simp
      have hlen := ((firstBehind_eq_some hne).mp hfound).1.length_le hne
      rw [verdict, verdict, firstBehind_append hne hfound later, hfound]
      refine iff_of_true ?_ (listedFirst_of_head later hcomplete)
      simp only [Prod.mk.injEq, true_and]
      exact List.take_append_of_le_length (by split <;> omega)
    | none =>
      have hnot : ¬ CompletesWith stopStr text piece := by
        rw [completesWith_iff hne, hfound]
        simp
      have hrest : ∃ s ∈ stop, CompletesWith s text piece := by
        obtain ⟨s, hs, hwith⟩ := hsome
        rcases List.mem_cons.mp hs with rfl | hs
        · exact absurd hwith hnot
        · exact ⟨s, hs, hwith⟩
      rw [verdict, verdict, hfound]
      cases hmore : firstBehind (text ++ piece ++ later) stopStr text.length with
      | none =>
        have hlater : ¬ CompletesWith stopStr (text ++ piece) later := by
          rw [← completesWith_of_append hne hnot, hmore]
          simp
        rw [listedFirst_cons hnot hlater]
        exact ih hstop' hrest
      | some i =>
        -- the head completes with the later text only, so it is not what was found before
        have hlater : CompletesWith stopStr (text ++ piece) later := by
          rw [← completesWith_of_append hne hnot, hmore]
          simp
        refine iff_of_false ?_ ?_
        · intro hsame
          obtain ⟨s, hs, hwith⟩ := hrest
          obtain ⟨s', hs', hfound', hverdict⟩ := verdict_ne_none includeStop
            ⟨s, hs, (completesWith_iff (hstop' s hs)).mp hwith⟩
          have hhead : stopStr = s' := by
            have := congrArg Prod.fst hsame
            rw [hverdict] at this
            exact Option.some.inj this
          rw [← hhead] at hfound'
          exact hfound' hfound
        · intro hlisted
          obtain ⟨s, hs, hwith⟩ := hlisted [] stopStr stop rfl hlater
          rw [List.nil_append, List.mem_singleton] at hs
          subst hs
          exact hnot hwith

/-! ## What one group answers -/

namespace BaseIncrementalDetokenizer

variable {params : StopParams} {d : BaseIncrementalDetokenizer}

/-- The leading tokens of a group whose text is not searched. -/
def unsearched (params : StopParams) (d : BaseIncrementalDetokenizer) (pieces : List (List Char)) :
    List (List Char) := pieces.take (params.minTokens - d.numOutputTokens)

theorem decodeLoop_eq (d : BaseIncrementalDetokenizer) (stopCheckOffset : Nat)
    (pieces : List (List Char)) :
    decodeLoop params d stopCheckOffset pieces = (d.decoded pieces,
      if unsearched params d pieces = [] then stopCheckOffset
      else (d.decoded (unsearched params d pieces)).outputText.length) := by
  induction pieces generalizing d stopCheckOffset with
  | nil => simp [decodeLoop, unsearched]
  | cons piece pieces ih =>
    have hstep : (⟨d.outputText ++ piece, d.numOutputTokens + 1⟩ : BaseIncrementalDetokenizer) =
        d.decoded [piece] := by
      simp [decoded]
    rw [decodeLoop]
    simp only
    rw [ih ⟨d.outputText ++ piece, d.numOutputTokens + 1⟩, hstep, decoded_decoded]
    congr 1
    rcases Nat.lt_or_ge d.numOutputTokens params.minTokens with hlt | hge
    · -- the token is not searched
      have hcons : unsearched params d (piece :: pieces) =
          piece :: unsearched params (d.decoded [piece]) pieces := by
        rw [unsearched, unsearched, numOutputTokens_decoded, List.length_singleton,
          show params.minTokens - d.numOutputTokens =
            (params.minTokens - (d.numOutputTokens + 1)) + 1 by omega]
        rfl
      have hskip : params.minTokens ≠ 0 ∧ d.numOutputTokens + 1 ≤ params.minTokens := by omega
      rw [hcons, if_neg (List.cons_ne_nil _ _)]
      split
      case isTrue hnil =>
        rw [hnil]
        simp
      case isFalse =>
        simp
    · have hnil : unsearched params d (piece :: pieces) = [] := by
        rw [unsearched, Nat.sub_eq_zero_of_le hge, List.take_zero]
      have hnil' : unsearched params (d.decoded [piece]) pieces = [] := by
        rw [unsearched, numOutputTokens_decoded, Nat.sub_eq_zero_of_le (by omega), List.take_zero]
      rw [if_pos hnil, if_pos hnil', if_neg]
      omega

/-- The offset from which `update` searches. -/
theorem decodeLoop_start (d : BaseIncrementalDetokenizer) (pieces : List (List Char)) :
    decodeLoop params d d.outputText.length pieces =
      (d.decoded pieces, (d.decoded (unsearched params d pieces)).outputText.length) := by
  rw [decodeLoop_eq]
  split
  case isTrue hnil =>
    rw [hnil, decoded_nil]
  case isFalse =>
    rfl

/-- Stop string and text behind what `check_stop_strings` found. -/
def truncated (text : List Char) : Option (List Char × Int) → Option (List Char) × List Char
  | none => (none, text)
  | some (stopStr, truncateTo) =>
    (some stopStr, if truncateTo ≠ -1 then text.take truncateTo.toNat else text)

theorem truncated_checkStopStrings {text : List Char} {searched : Nat}
    (hlt : searched < text.length) {stop : List (List Char)} (hstop : ∀ s ∈ stop, s ≠ []) (includeStop : Bool) :
    truncated text (checkStopStrings text (text.length - searched) stop includeStop) =
      verdict includeStop text searched stop := by
  have hnew : ((text.length : Int) - searched) ≠ 0 := by omega
  rw [checkStopStrings, if_neg hnew]
  induction stop with
  | nil => rfl
  | cons stopStr stop ih =>
    have hpos := List.length_pos_iff.mpr (hstop stopStr List.mem_cons_self)
    have hfind : find text stopStr (1 - ((text.length : Int) - searched) - stopStr.length) =
        firstBehind text stopStr searched := by
      rw [find, if_pos (by omega)]
      congr 1
      omega
    rw [List.findSome?_cons, hfind, verdict]
    cases firstBehind text stopStr searched with
    | none => exact ih fun s hs => hstop s (List.mem_cons_of_mem _ hs)
    | some i =>
      have hcut : ((i : Int) + stopStr.length).toNat = i + stopStr.length := by omega
      cases includeStop with
      | false => simp [truncated]
      | true =>
        rcases Nat.lt_or_ge (i + stopStr.length) text.length with hbefore | hend
        · have hne : ((i : Int) + stopStr.length) ≠ -1 := by omega
          simp [truncated, hne, hcut, Nat.not_le_of_lt hbefore]
        · simp [truncated, hend]

/-- A detokenizer that finds no stop string is left alone. -/
theorem evaluateStop_of_none {stopCheckOffset : Nat} (h : (evaluateStop params d stopCheckOffset).2 = none) :
    (evaluateStop params d stopCheckOffset).1 = d := by
  unfold evaluateStop at h ⊢
  split
  case isFalse => rfl
  case isTrue hstop =>
    rw [if_pos hstop] at h
    split
    case h_1 => rfl
    case h_2 heq =>
      rw [heq] at h
      dsimp only at h
      split at h
      case isTrue => cases h
      case isFalse => cases h

theorem outcome_evaluateStop (hstop : ∀ s ∈ params.stop, s ≠ []) {stopCheckOffset : Nat}
    (hle : stopCheckOffset ≤ d.outputText.length) :
    outcome (evaluateStop params d stopCheckOffset) =
      if params.minTokens < d.numOutputTokens then
        verdict params.includeStopStrInOutput d.outputText stopCheckOffset params.stop
      else (none, d.outputText) := by
  rw [evaluateStop]
  rcases Nat.lt_or_ge params.minTokens d.numOutputTokens with hmin | hmin
  · rw [if_pos hmin]
    rcases Nat.lt_or_ge stopCheckOffset d.outputText.length with hlt | hge
    · rw [← truncated_checkStopStrings hlt hstop]
      split
      case isTrue =>
        split
        case h_1 heq =>
          rw [heq]
          rfl
        case h_2 heq =>
          rw [heq]
          dsimp only [truncated]
          split <;> rfl
      case isFalse h =>
        have hnil : params.stop = [] := by
          by_contra hne
          exact h ⟨hne, hmin⟩
        rw [hnil, checkStopStrings]
        split <;> rfl
    · -- there is no new text
      rw [verdict_eq_none hstop params.includeStopStrInOutput fun s hs i hoccurs =>
        Nat.le_trans (hoccurs.length_le (hstop s hs)) hge]
      have hnone : checkStopStrings d.outputText (d.outputText.length - stopCheckOffset) params.stop
          params.includeStopStrInOutput = none := by
        rw [checkStopStrings, if_pos (by omega)]
      rw [hnone]
      split <;> rfl
  · rw [if_neg (by omega), if_neg (by omega)]
    rfl

theorem length_unsearched_le (d : BaseIncrementalDetokenizer) (pieces : List (List Char)) :
    (d.decoded (unsearched params d pieces)).outputText.length ≤ (d.decoded pieces).outputText.length := by
  have hsplit := List.take_append_drop (params.minTokens - d.numOutputTokens) pieces
  have hflatten := congrArg (fun l => l.flatten.length) hsplit
  simp only [List.flatten_append, List.length_append] at hflatten
  rw [outputText_decoded, outputText_decoded, List.length_append, List.length_append, unsearched]
  omega

/-- The answer of one group of tokens. -/
theorem outcome_update (hstop : ∀ s ∈ params.stop, s ≠ []) (d : BaseIncrementalDetokenizer)
    (pieces : List (List Char)) :
    outcome (update params d pieces false) =
      if params.minTokens < d.numOutputTokens + pieces.length then
        verdict params.includeStopStrInOutput (d.outputText ++ pieces.flatten)
          (d.decoded (unsearched params d pieces)).outputText.length params.stop
      else (none, d.outputText ++ pieces.flatten) := by
  rw [update]
  split
  case isTrue hnil =>
    subst hnil
    have hnone : verdict params.includeStopStrInOutput d.outputText d.outputText.length
        params.stop = (none, d.outputText) :=
      verdict_eq_none hstop _ fun s hs i hoccurs => hoccurs.length_le (hstop s hs)
    simp [outcome, unsearched, hnone]
  case isFalse =>
    rw [Bool.false_and, if_neg (by simp), decodeLoop_start]
    exact outcome_evaluateStop hstop (length_unsearched_le d pieces)

theorem update_of_none {pieces : List (List Char)} (h : (update params d pieces false).2 = none) :
    (update params d pieces false).1 = d.decoded pieces := by
  unfold update at h ⊢
  split
  case isTrue hnil =>
    rw [hnil, decoded_nil]
  case isFalse hne =>
    rw [if_neg hne] at h
    rw [Bool.false_and, if_neg (by simp), decodeLoop_start] at h ⊢
    exact evaluateStop_of_none h

end BaseIncrementalDetokenizer

end Yuan.Core
