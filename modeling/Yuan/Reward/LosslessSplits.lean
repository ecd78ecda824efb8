import Mathlib.Data.List.TakeWhile
import Yuan.Reward.ThinkTextSplits

/-!
# The splits lose nothing

Put together again, the parts of a text are the text.
-/

namespace Yuan.Reward

variable (r : Regexes)

/-! ## Joining lists -/

theorem flatten_dropLast_append {α : Type} {l : List (List α)} {last : List α} (h : l.getLast? = some last)
    (extra : List α) : (l.dropLast ++ [last ++ extra]).flatten = l.flatten ++ extra := by
  obtain ⟨init, rfl⟩ := List.getLast?_eq_some_iff.mp h
  rw [List.dropLast_concat, List.flatten_append, List.flatten_append, List.flatten_singleton, List.flatten_singleton,
    List.append_assoc]

theorem intercalate_nil_eq_flatten {α : Type} (l : List (List α)) : List.intercalate [] l = l.flatten := by
  induction l with
  | nil => rfl
  | cons a l ih =>
    cases l with
    | nil => rw [List.intercalate_singleton, List.flatten_singleton]
    | cons b l => rw [List.intercalate_cons_cons, ih, List.append_nil, List.flatten_cons (l := a)]

theorem intercalate_append_cons {α : Type} (sep : List α) (l : List (List α)) (a : List α) (rest : List (List α)) :
    List.intercalate sep (l ++ a :: rest)
      = (l.flatMap fun b => b ++ sep) ++ List.intercalate sep (a :: rest) := by
  induction l with
  | nil => rfl
  | cons b l ih =>
    have hcons : l ++ a :: rest ≠ [] := List.append_ne_nil_of_right_ne_nil _ (List.cons_ne_nil _ _)
    obtain ⟨c, l', hl'⟩ := List.exists_cons_of_ne_nil hcons
    rw [List.cons_append, List.flatMap_cons, List.append_assoc, ← ih, hl', List.intercalate_cons_cons]

/-! ## `re.split` -/

theorem reSplit_lossless (mark : Text → Text → Option Nat) (fuel : Nat) (before piece rest : Text) :
    (reSplit mark fuel before piece rest).1 ++ ((reSplit mark fuel before piece rest).2.flatMap fun p => p.1 ++ p.2)
      = piece ++ rest := by
  induction fuel generalizing before piece rest with
  | zero => exact List.append_nil _
  | succ fuel ih =>
    cases rest with
    | nil =>
      rw [List.append_nil]
      exact List.append_nil _
    | cons c rest =>
      unfold reSplit
      split
      · dsimp only
        rw [List.flatMap_cons, List.append_assoc, ih, List.nil_append, List.take_append_drop]
      · rw [ih, List.append_assoc]
        rfl

/-- Every match at a full stop is the full stop. -/
theorem reSplit_dotMark (isDigit : Char → Bool) (fuel : Nat) (before piece rest : Text) :
    ∀ p ∈ (reSplit (dotMark isDigit) fuel before piece rest).2, p.1 = ['.'] := by
  induction fuel generalizing before piece rest with
  | zero => exact fun p hp => absurd hp List.not_mem_nil
  | succ fuel ih =>
    cases rest with
    | nil => exact fun p hp => absurd hp List.not_mem_nil
    | cons c rest =>
      unfold reSplit
      split
      case h_1 n hmark =>
        intro p hp
        rcases List.mem_cons.mp hp with rfl | hp
        · unfold dotMark at hmark
          split at hmark
          case h_1 behind heq =>
            split at hmark
            · cases hmark
            · cases hmark
              cases heq
              rfl
          case h_2 => cases hmark
        · exact ih _ _ _ p hp
      case h_2 => exact ih _ _ _

theorem intercalate_dotPieces (text : Text) : List.intercalate ['.'] (dotPieces r text) = text := by
  have hlossless := reSplit_lossless (dotMark r.isDigit) text.length [] [] text
  have hdots := reSplit_dotMark r.isDigit text.length [] [] text
  unfold dotPieces
  generalize reSplit (dotMark r.isDigit) text.length [] [] text = split at hlossless hdots
  have hjoin : ∀ (l : List (Text × Text)) (front : Text), (∀ p ∈ l, p.1 = ['.']) →
      List.intercalate ['.'] (front :: l.map Prod.snd) = front ++ l.flatMap fun p => p.1 ++ p.2 := by
    intro l
    induction l with
    | nil =>
      intro front _
      rw [List.map_nil, List.intercalate_singleton, List.flatMap_nil, List.append_nil]
    | cons p l ih =>
      intro front hl
      rw [List.map_cons, List.intercalate_cons_cons, ih _ fun q hq => hl q (List.mem_cons_of_mem p hq),
        List.flatMap_cons, hl p List.mem_cons_self, List.append_assoc, List.append_assoc]
  rw [hjoin _ _ hdots, hlossless, List.nil_append]

/-! ## Steps -/

theorem flatten_withBound (bound : Char) (pieces : List Text) :
    (withBound bound pieces).flatten = List.intercalate [bound] pieces := by
  induction pieces with
  | nil => rfl
  | cons piece pieces ih =>
    cases pieces with
    | nil => rw [withBound, List.flatten_singleton, List.intercalate_singleton]
    | cons next pieces =>
      have hcons : withBound bound (piece :: next :: pieces)
          = (piece ++ [bound]) :: withBound bound (next :: pieces) := rfl
      rw [hcons, List.flatten_cons, ih, List.intercalate_cons_cons]

theorem flatten_foldl {f : List Text → Text → List Text}
    (hf : ∀ subs piece, (f subs piece).flatten = subs.flatten ++ piece) (pieces subs : List Text) :
    (pieces.foldl f subs).flatten = subs.flatten ++ pieces.flatten := by
  induction pieces generalizing subs with
  | nil => exact (List.append_nil _).symm
  | cons piece pieces ih => rw [List.foldl_cons, ih, hf, List.flatten_cons, List.append_assoc]

theorem flatten_joinBlanks (pieces : List Text) : (joinBlanks pieces).flatten = pieces.flatten := by
  refine flatten_foldl (fun subs piece => ?_) pieces []
  cases hlast : subs.getLast? with
  | none =>
    rw [List.getLast?_eq_none_iff.mp hlast]
    exact List.flatten_singleton
  | some last =>
    dsimp only
    split
    · exact flatten_dropLast_append hlast piece
    · rw [List.flatten_append, List.flatten_singleton]

/-- Nothing is trimmed: a piece ends with the bound only where the text does. -/
theorem flatten_andStrip {text : Text} {splitText : List Text} {bound : Char}
    (h : List.intercalate [bound] splitText = text) : (andStrip text splitText bound).flatten = text := by
  have hflatten := (flatten_withBound bound splitText).trans h
  unfold andStrip
  generalize withBound bound splitText = pieces at hflatten
  have hend : ∀ last, pieces.getLast? = some last → ¬ (¬ [bound] <:+ text ∧ [bound] <:+ last) := by
    rintro last hlast ⟨hnot, hsuffix⟩
    obtain ⟨init, rfl⟩ := List.getLast?_eq_some_iff.mp hlast
    rw [List.flatten_append, List.flatten_singleton] at hflatten
    rw [← hflatten] at hnot
    exact hnot (hsuffix.trans (List.suffix_append _ _))
  have hfront : ∀ first rest, pieces = first :: rest → ¬ (¬ [bound] <+: text ∧ [bound] <+: first) := by
    rintro first rest rfl ⟨hnot, hinitial⟩
    rw [← hflatten] at hnot
    exact hnot (hinitial.trans (List.prefix_append _ _))
  rw [flatten_joinBlanks]
  cases hlast : pieces.getLast? with
  | none =>
    rw [List.getLast?_eq_none_iff.mp hlast] at hflatten ⊢
    exact hflatten
  | some last =>
    dsimp only
    rw [if_neg (hend last hlast)]
    cases hpieces : pieces with
    | nil => rwa [hpieces] at hflatten
    | cons first rest =>
      dsimp only
      rw [if_neg (hfront first rest hpieces), ← hpieces]
      exact hflatten

theorem andStrip_nil (text : Text) (bound : Char) : andStrip text [] bound = [] := rfl

theorem flatten_firstSplit (text : Text) : (firstSplit r text).flatten = text := by
  have hlossless := reSplit_lossless r.stepMark text.length [] [] text
  unfold firstSplit
  dsimp only
  split
  · split
    · split
      · exact flatten_andStrip (List.intercalate_splitOn _)
      · split
        · exact flatten_andStrip (intercalate_dotPieces r text)
        · exact flatten_andStrip (List.intercalate_splitOn _)
    · exact flatten_andStrip (List.intercalate_splitOn _)
  · have hgroups : ∀ l : List (Text × Text),
        (l.flatMap fun p => [p.1, p.2]).flatten = l.flatMap fun p => p.1 ++ p.2 := by
      intro l
      induction l with
      | nil => rfl
      | cons p l ih =>
        rw [List.flatMap_cons, List.flatMap_cons, List.flatten_append, ih, List.flatten_cons, List.flatten_singleton]
    rw [List.flatten_cons, hgroups, hlossless, List.nil_append]

theorem flatten_splitTextMid (flagChi : Bool) (text : Text) :
    splitTextMid r flagChi text = [] ∨ (splitTextMid r flagChi text).flatten = text := by
  unfold splitTextMid
  split
  · exact Or.inl (andStrip_nil text _)
  · split
    · exact Or.inl (andStrip_nil text _)
    · split
      · exact Or.inr (flatten_andStrip (intercalate_dotPieces r text))
      · exact Or.inl rfl

theorem flatten_splitLong (flagChi : Bool) (text : Text) : (splitLong r flagChi text).flatten = text := by
  unfold splitLong
  split
  · split
    · exact List.flatten_singleton
    · next hmid => exact (flatten_splitTextMid r flagChi text).resolve_left hmid
  · exact List.flatten_singleton

theorem flatten_joinMarks (fuel : Nat) (pieces : List Text) : (joinMarks r fuel pieces).flatten = pieces.flatten := by
  induction fuel generalizing pieces with
  | zero => rfl
  | succ fuel ih =>
    cases pieces with
    | nil => rfl
    | cons text rest =>
      unfold joinMarks
      split
      · split
        case h_1 next rest' hrest =>
          -- only empty pieces are skipped
          have hskip : rest.flatten = (rest.dropWhile fun t => decide (t = [])).flatten := by
            conv_lhs => rw [← List.takeWhile_append_dropWhile (p := fun t : Text => decide (t = [])) (l := rest)]
            rw [List.flatten_append]
            have hempty : (rest.takeWhile fun t : Text => decide (t = [])).flatten = [] :=
              List.flatten_eq_nil_iff.mpr fun t ht =>
                of_decide_eq_true (List.mem_takeWhile_imp (p := fun t : Text => decide (t = [])) ht)
            rw [hempty, List.nil_append]
          rw [List.flatten_cons, List.flatten_cons, ih, hskip, hrest, List.flatten_cons, List.append_assoc]
        case h_2 => rw [List.flatten_cons, List.flatten_cons, ih]
      · rw [List.flatten_cons, List.flatten_cons, ih]

theorem flatten_splitAnswer (steps : List Text) : (splitAnswer r steps).flatten = steps.flatten := by
  unfold splitAnswer
  split
  case h_1 last hlast =>
    split
    · split
      case h_1 n _ =>
        obtain ⟨init, rfl⟩ := List.getLast?_eq_some_iff.mp hlast
        rw [List.dropLast_concat, List.flatten_append, List.flatten_append, List.flatten_cons, List.flatten_singleton,
          List.flatten_singleton, List.take_append_drop]
      case h_2 => rfl
    · rfl
  case h_2 => rfl

theorem flatten_filter_ne_nil {α : Type} [DecidableEq α] (l : List (List α)) :
    (l.filter fun t => decide (t ≠ [])).flatten = l.flatten := by
  induction l with
  | nil => rfl
  | cons t l ih =>
    by_cases ht : t = []
    · rw [List.filter_cons_of_neg (by simpa using ht), ih, ht]
      rfl
    · rw [List.filter_cons_of_pos (by simpa using ht), List.flatten_cons, ih, List.flatten_cons]

theorem flatten_splitStepText (text : Text) :
    (splitStepText r text).flatten = Text.replace "<n>".toList "\n".toList text := by
  unfold splitStepText
  dsimp only
  generalize Text.replace "<n>".toList "\n".toList text = text
  have hsteps : (((firstSplit r text).filter (· ≠ [])).flatMap (splitLong r (r.chineseRun text))).flatten = text := by
    have hpieces : ∀ l : List Text, (l.flatMap (splitLong r (r.chineseRun text))).flatten = l.flatten := by
      intro l
      induction l with
      | nil => rfl
      | cons t l ih => rw [List.flatMap_cons, List.flatten_append, ih, flatten_splitLong, List.flatten_cons]
    rw [hpieces, flatten_filter_ne_nil, flatten_firstSplit]
  split
  · exact hsteps
  · rw [flatten_splitAnswer, flatten_joinMarks, hsteps]

/-! ## Small pieces -/

theorem intercalate_combineLoop (sep : Text) (maxWords minWords : Nat) (combined : List Text) (last : Text)
    (rest : List Text) :
    List.intercalate sep (combineLoop sep maxWords minWords combined last rest)
      = List.intercalate sep (combined ++ last :: rest) := by
  induction rest generalizing combined last with
  | nil => rfl
  | cons current rest ih =>
    unfold combineLoop
    split
    · rw [ih, intercalate_append_cons, intercalate_append_cons]
      refine congrArg ((combined.flatMap fun b => b ++ sep) ++ ·) ?_
      cases rest with
      | nil => rw [List.intercalate_singleton, List.intercalate_cons_cons, List.intercalate_singleton]
      | cons next rest =>
        rw [List.intercalate_cons_cons, List.intercalate_cons_cons, List.intercalate_cons_cons]
        simp only [List.append_assoc]
    · rw [ih, List.append_assoc]
      rfl

theorem intercalate_combineSmallLst (inputText : Text) (maxWords minWords : Nat) :
    List.intercalate ['\n'] (combineSmallLst inputText maxWords minWords) = inputText := by
  have hsplit : List.intercalate ['\n'] (inputText.splitOn '\n') = inputText := List.intercalate_splitOn _
  unfold combineSmallLst
  split
  · next hnil =>
    rw [hnil]
    rfl
  · split
    case h_1 first second rest heq =>
      rw [intercalate_combineLoop, List.nil_append, ← heq]
      exact hsplit
    case h_2 => exact hsplit

theorem append_getLast {l : List Text} (hne : l ≠ []) (extra : Text) :
    (l.dropLast ++ [l.getLast?.getD [] ++ extra]).flatten = l.flatten ++ extra := by
  obtain ⟨init, last, rfl⟩ := List.eq_nil_or_concat l |>.resolve_left hne
  rw [List.concat_eq_append, List.dropLast_concat, List.getLast?_concat, Option.getD_some, List.flatten_append,
    List.flatten_append, List.flatten_singleton, List.flatten_singleton, List.append_assoc]

theorem flatten_addLine {inputLst : List Text} {middleText : Text} (isLast : Bool) (hne : inputLst ≠ [])
    (hmarker : ¬ "<n>".toList <:+: middleText) :
    addLine r inputLst middleText isLast ≠ [] ∧
      (addLine r inputLst middleText isLast).flatten
        = inputLst.flatten ++ middleText ++ if isLast then [] else ['\n'] := by
  have hbody : ∀ l : List Text, l ≠ [] → l.flatten = inputLst.flatten ++ middleText →
      (if isLast then l else l.dropLast ++ [l.getLast?.getD [] ++ ['\n']]) ≠ [] ∧
        (if isLast then l else l.dropLast ++ [l.getLast?.getD [] ++ ['\n']]).flatten
          = inputLst.flatten ++ middleText ++ if isLast then [] else ['\n'] := by
    intro l hl hflatten
    cases isLast with
    | true => exact ⟨hl, by rw [if_pos rfl, if_pos rfl, hflatten, List.append_nil]⟩
    | false =>
      refine ⟨List.append_ne_nil_of_right_ne_nil _ (List.cons_ne_nil _ _), ?_⟩
      have hlast := append_getLast hl ['\n']
      rw [hflatten] at hlast
      exact hlast
  refine hbody _ ?_ ?_
  · split
    · exact List.append_ne_nil_of_left_ne_nil hne _
    · split
      · exact List.append_ne_nil_of_right_ne_nil _ (List.cons_ne_nil _ _)
      · exact List.append_ne_nil_of_left_ne_nil hne _
  · split
    · rw [List.flatten_append, flatten_splitStepText, Text.replace_of_not_infix hmarker,
        Text.replace_of_not_infix hmarker]
    · split
      · exact append_getLast hne middleText
      · rw [List.flatten_append, List.flatten_singleton]

theorem flatten_addLines {lines inputLst : List Text} (hne : inputLst ≠ []) (hlines : lines ≠ [])
    (hmarker : ∀ line ∈ lines, ¬ "<n>".toList <:+: line) :
    (addLines r inputLst lines).flatten = inputLst.flatten ++ List.intercalate ['\n'] lines := by
  induction lines generalizing inputLst with
  | nil => exact absurd rfl hlines
  | cons line lines ih =>
    obtain ⟨hne', hflatten⟩ := flatten_addLine r (decide (lines = [])) hne (hmarker line List.mem_cons_self)
    unfold addLines
    cases lines with
    | nil =>
      rw [addLines, hflatten, List.intercalate_singleton, if_pos (decide_eq_true rfl), List.append_nil]
    | cons next lines =>
      rw [ih hne' (List.cons_ne_nil _ _) fun l hl => hmarker l (List.mem_cons_of_mem line hl), hflatten,
        if_neg (by simp), List.intercalate_cons_cons, List.append_assoc, List.append_assoc, List.append_assoc]

/-- A line of a text is a part of it. -/
theorem infix_of_mem_splitOn {text line : Text} (h : line ∈ text.splitOn '\n') : line <:+: text := by
  have hsplit : List.intercalate ['\n'] (text.splitOn '\n') = text := List.intercalate_splitOn _
  obtain ⟨front, back, heq⟩ := List.append_of_mem h
  rw [heq, intercalate_append_cons] at hsplit
  cases back with
  | nil => exact ⟨_, [], by rw [List.append_nil, ← hsplit, List.intercalate_singleton]⟩
  | cons next back =>
    rw [List.intercalate_cons_cons, ← List.append_assoc, ← List.append_assoc] at hsplit
    exact ⟨_, _, by rw [← hsplit, ← List.append_assoc]⟩

theorem combineSmallLstMllm_spec {inputText : Text} (maxWords minWords : Nat)
    (hmarker : ¬ "<n>".toList <:+: inputText) :
    ∃ parts, combineSmallLstMllm r inputText maxWords minWords = .ok parts ∧ parts.flatten = inputText := by
  have hadd : (addLines r [[]] (inputText.splitOn '\n')).flatten = inputText := by
    rw [flatten_addLines r (List.cons_ne_nil _ _) (List.splitOn_ne_nil _ _)
      fun line hline h => hmarker (h.trans (infix_of_mem_splitOn hline))]
    exact List.intercalate_splitOn _
  unfold combineSmallLstMllm
  rw [Text.replace_of_not_infix hmarker]
  split
  · next hnil => exact ⟨[], rfl, hnil.symm⟩
  · split
    case h_1 first second rest heq =>
      have hloop : (combineLoop [] maxWords minWords [] first (second :: rest)).flatten = inputText := by
        have h := intercalate_combineLoop [] maxWords minWords [] first (second :: rest)
        rw [intercalate_nil_eq_flatten, intercalate_nil_eq_flatten, List.nil_append, ← heq] at h
        exact h.trans hadd
      refine ⟨_, ?_, hloop⟩
      dsimp only
      rw [decide_eq_true hloop]
      rfl
    case h_2 => exact ⟨_, rfl, hadd⟩

/-! ## Parts of a long text -/

/-- The last item ends a part, so something is in the result and nothing is left over. -/
theorem flatten_mergeLoop (targetLength : Int) (result : List Text) (combineText item : Text) (rest : List Text) :
    mergeLoop r targetLength result combineText (item :: rest) ≠ [] ∧
      (mergeLoop r targetLength result combineText (item :: rest)).flatten
        = result.flatten ++ combineText ++ '\n' :: List.intercalate ['\n'] (item :: rest) := by
  induction rest generalizing result combineText item with
  | nil =>
    have hends : continuesPart r targetLength (combineText ++ '\n' :: item) item true = false := by
      unfold continuesPart
      simp
    unfold mergeLoop
    dsimp only
    rw [decide_eq_true rfl, hends, if_neg Bool.false_ne_true, if_pos (Or.inr rfl), mergeLoop]
    refine ⟨List.append_ne_nil_of_right_ne_nil _ (List.cons_ne_nil _ _), ?_⟩
    rw [List.flatten_append, List.flatten_singleton, List.intercalate_singleton, List.append_assoc]
  | cons next rest ih =>
    have hjoin : ∀ front : Text,
        front ++ (combineText ++ '\n' :: item) ++ '\n' :: List.intercalate ['\n'] (next :: rest)
        = front ++ combineText ++ '\n' :: List.intercalate ['\n'] (item :: next :: rest) := by
      intro front
      rw [List.intercalate_cons_cons]
      simp only [List.append_assoc, List.cons_append, List.nil_append]
    unfold mergeLoop
    dsimp only
    split
    · obtain ⟨hne, hflatten⟩ := ih result (combineText ++ '\n' :: item) next
      exact ⟨hne, hflatten.trans (hjoin _)⟩
    · split
      · obtain ⟨hne, hflatten⟩ := ih (result ++ [combineText ++ '\n' :: item]) [] next
        refine ⟨hne, hflatten.trans ?_⟩
        rw [List.append_nil, List.flatten_append, List.flatten_singleton]
        exact hjoin _
      · obtain ⟨hne, hflatten⟩ := ih result (combineText ++ '\n' :: item) next
        exact ⟨hne, hflatten.trans (hjoin _)⟩

theorem mergeClosestSum_spec {inputText : Text} (targetLength : Int) (hmarker : ¬ "<n>".toList <:+: inputText) :
    ∃ parts, mergeClosestSum r inputText targetLength = .ok parts ∧ parts.flatten = inputText := by
  have hsplit : List.intercalate ['\n'] (inputText.splitOn '\n') = inputText := List.intercalate_splitOn _
  unfold mergeClosestSum
  rw [Text.replace_of_not_infix hmarker]
  split
  case h_2 => exact ⟨[inputText], rfl, List.flatten_singleton⟩
  case h_1 first second rest heq =>
    rw [heq, List.intercalate_cons_cons] at hsplit
    dsimp only
    have hlen : 1 ≤ inputText.length := by
      rw [← hsplit, List.length_append, List.length_append]
      exact Nat.le_trans (Nat.le_add_left 1 _) (Nat.le_add_right _ _)
    have htarget : (if (inputText.length : Int) < targetLength * 2 then (inputText.length / 2 + 1 : Int)
        else targetLength) ≤ 3 * (inputText.length : Int) := by
      split <;> omega
    generalize (if (inputText.length : Int) < targetLength * 2 then (inputText.length / 2 + 1 : Int)
      else targetLength) = target at htarget
    obtain ⟨hne, hflatten⟩ := flatten_mergeLoop r target [] first second rest
    generalize mergeLoop r target [] first (second :: rest) = result at hne hflatten
    have hresult : result.flatten = inputText := by
      rw [hflatten, ← hsplit, List.flatten_nil, List.nil_append, List.append_assoc]
      rfl
    obtain ⟨init, last, rfl⟩ := List.eq_nil_or_concat result |>.resolve_left hne
    rw [List.concat_eq_append] at hresult ⊢
    rw [List.getLast?_concat]
    dsimp only
    split
    · next hshort =>
      rw [List.dropLast_concat]
      rcases List.eq_nil_or_concat init with rfl | ⟨front, previous, rfl⟩
      · -- a single part is the whole text, which is not short
        rw [List.nil_append, List.flatten_singleton] at hresult
        rw [hresult] at hshort
        exact absurd hshort (by omega)
      · rw [List.concat_eq_append] at hresult ⊢
        rw [List.getLast?_concat, List.dropLast_concat]
        refine ⟨_, rfl, ?_⟩
        rw [← hresult]
        simp only [List.flatten_append, List.flatten_cons, List.flatten_nil, List.append_nil, List.append_assoc]
    · exact ⟨_, rfl, hresult⟩

end Yuan.Reward
