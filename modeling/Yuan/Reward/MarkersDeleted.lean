import Yuan.Lib.Markers
import Yuan.Reward.LosslessSplits
import Yuan.Reward.ThinkTextMarkers

/-!
# Without its markers, a think text is unchanged

Markers are put between the characters of a text, whatever the model answers, the fuzzy matcher finds and the regular
expressions match. Deleting them gives the text back.
-/

namespace Yuan.Reward

open Markers (Token Opens chars render)

variable {text : Text} {texts marked : List Text}

/-! ## Texts with markers -/

/-- `text` with verify markers put in is `marked`. -/
def Marked (text marked : Text) : Prop :=
  ∃ tokens : List (Token Char), chars tokens = text ∧ render tokens = marked ∧
    ∀ m, .mark m ∈ tokens → m = verifyMarker

theorem Marked.refl (text : Text) : Marked text text := by
  refine ⟨text.map .char, Markers.chars_map_char text, Markers.render_map_char text, fun m hm => ?_⟩
  obtain ⟨c, -, hc⟩ := List.mem_map.mp hm
  cases hc

theorem Marked.append {text' marked marked' : Text} (h : Marked text marked) (h' : Marked text' marked') :
    Marked (text ++ text') (marked ++ marked') := by
  obtain ⟨tokens, rfl, rfl, hmarks⟩ := h
  obtain ⟨tokens', rfl, rfl, hmarks'⟩ := h'
  refine ⟨tokens ++ tokens', Markers.chars_append _ _, Markers.render_append _ _, fun m hm => ?_⟩
  rcases List.mem_append.mp hm with hm | hm
  · exact hmarks m hm
  · exact hmarks' m hm

/-- A marker behind a text. -/
theorem Marked.mark {marked : Text} (h : Marked text marked) : Marked text (marked ++ verifyMarker) := by
  have hmarker : Marked [] verifyMarker := by
    refine ⟨[.mark verifyMarker], rfl, List.append_nil _, fun m hm => ?_⟩
    exact Token.mark.inj (List.mem_singleton.mp hm)
  have happend := h.append hmarker
  rwa [List.append_nil] at happend

theorem Marked.flatten (h : List.Forall₂ Marked texts marked) : Marked texts.flatten marked.flatten := by
  induction h with
  | nil => exact .refl []
  | cons hab _ ih => exact hab.append ih

theorem Marked.intercalate (sep : Text) (h : List.Forall₂ Marked texts marked) :
    Marked (List.intercalate sep texts) (List.intercalate sep marked) := by
  induction h with
  | nil => exact .refl []
  | cons hab hrest ih =>
    cases hrest with
    | nil =>
      rw [List.intercalate_singleton, List.intercalate_singleton]
      exact hab
    | cons hab' hrest =>
      rw [List.intercalate_cons_cons, List.intercalate_cons_cons]
      exact (hab.append (.refl sep)).append ih

theorem forall₂_modify (h : List.Forall₂ Marked texts marked) (i : Nat) :
    List.Forall₂ Marked texts (marked.modify i (· ++ verifyMarker)) := by
  induction h generalizing i with
  | nil =>
    rw [List.modify_nil]
    exact .nil
  | cons hab hrest ih =>
    cases i with
    | zero => exact .cons hab.mark hrest
    | succ i => exact .cons hab (ih i)

/-! ## What is inserted -/

variable (t : MarkerTools)

theorem insertBlock_marked {s s' : InsertState} {p : VerifyBlock × Nat} (h : insertBlock t s p = .ok s')
    (hs : List.Forall₂ Marked texts s.segments) : List.Forall₂ Marked texts s'.segments := by
  unfold insertBlock at h
  dsimp only at h
  split at h
  · cases h
    exact hs
  · obtain ⟨endIndex, -, h⟩ := bind_eq_ok.mp h
    split at h
    · cases h
      exact hs
    · split at h
      · cases h
        exact hs
      · cases h
        exact forall₂_modify hs _

theorem insertBlocks_marked {blocks : List (VerifyBlock × Nat)} {s s' : InsertState}
    (h : blocks.foldlM (insertBlock t) s = .ok s') (hs : List.Forall₂ Marked texts s.segments) :
    List.Forall₂ Marked texts s'.segments :=
  kept_by_foldlM (I := fun s => List.Forall₂ Marked texts s.segments) (insertBlock_marked t) h hs

/-- The segments make up the text. -/
theorem thinkTextSegments_spec {rewardMethod : Text} (hmarker : ¬ "<n>".toList <:+: text) :
    ∃ segments, thinkTextSegments t rewardMethod text = .ok segments ∧
      List.intercalate (segmentSep rewardMethod) segments = text := by
  unfold thinkTextSegments segmentSep
  by_cases hmllm : isMllm rewardMethod = true
  · obtain ⟨parts, hparts, hflatten⟩ := combineSmallLstMllm_spec t.toRegexes 50 20 hmarker
    rw [if_pos hmllm, if_pos hmllm]
    exact ⟨parts, hparts, (intercalate_nil_eq_flatten parts).trans hflatten⟩
  · rw [if_neg hmllm, if_neg hmllm]
    exact ⟨_, rfl, intercalate_combineSmallLst text 50 20⟩

theorem getInsertVerifyResOnlyend_marked {insertVerify rewardMethod : Text} {result : InsertResult}
    (hmarker : ¬ "<n>".toList <:+: text) (h : getInsertVerifyResOnlyend t text insertVerify rewardMethod = .ok result) :
    Marked text result.sftThinkTextVerify := by
  unfold getInsertVerifyResOnlyend at h
  dsimp only at h
  split at h
  · cases h
    exact .refl text
  · obtain ⟨segments, hsegments, hjoin⟩ := thinkTextSegments_spec t hmarker
    rw [hsegments, ok_bind] at h
    obtain ⟨s, hs, h⟩ := bind_eq_ok.mp h
    cases h
    have hall : List.Forall₂ Marked segments s.segments :=
      insertBlocks_marked t hs (List.forall₂_same.mpr fun segment _ => .refl segment)
    have hmarked := Marked.intercalate (segmentSep rewardMethod) hall
    rwa [hjoin] at hmarked

theorem resInsert_marked (generated rewardMethod : Text) (hmarker : ¬ "<n>".toList <:+: text) :
    Marked text (resInsert t text generated rewardMethod).sftThinkTextVerify := by
  unfold resInsert
  split
  · exact .refl text
  · split
    case h_1 result hresult => exact getInsertVerifyResOnlyend_marked t hmarker hresult
    case h_2 => exact .refl text

theorem processWithMultithreadingMap_marked {parts : List Text} (question ansEnd api : Text)
    (template : PromptTemplate) (rewardMethod : Text) (hmarker : ∀ part ∈ parts, ¬ "<n>".toList <:+: part) :
    Marked parts.flatten (processWithMultithreadingMap t parts question ansEnd api template rewardMethod).1 := by
  unfold processWithMultithreadingMap
  dsimp only
  rw [List.flatMap_map]
  refine Marked.flatten ?_
  rw [List.forall₂_map_right_iff]
  have hzip : List.Forall₂ (fun part p => p.1 = part ∧ part ∈ parts) parts parts.zipIdx := by
    rw [List.forall₂_iff_get]
    refine ⟨List.length_zipIdx.symm, fun i hi hi' => ⟨?_, List.get_mem _ _⟩⟩
    rw [List.get_eq_getElem, List.getElem_zipIdx]
    rfl
  refine hzip.imp fun part p hp => ?_
  rw [hp.1]
  exact resInsert_marked t _ rewardMethod (hmarker part hp.2)

/-! ## Deleting the markers -/

/-- A text without both markers and without `<n>`. -/
structure Plain (text : Text) : Prop where
  verify : ¬ verifyMarker <:+: text
  firstAnswer : ¬ firstAnswerMarker <:+: text
  newline : ¬ "<n>".toList <:+: text

/-- Delete all markers. -/
def deleteMarkers (text : Text) : Text :=
  Text.replace firstAnswerMarker [] (Text.replace verifyMarker [] text)

theorem opens_verifyMarker : Opens '<' verifyMarker := ⟨"/verify>".toList, by decide, by decide⟩

theorem opens_firstAnswerMarker : Opens '<' firstAnswerMarker := ⟨"1st_answer>".toList, by decide, by decide⟩

theorem markers_differ : ¬ verifyMarker <+: firstAnswerMarker ∧ ¬ firstAnswerMarker <+: verifyMarker := by decide

/-- Deleting both markers leaves the characters of the text. -/
theorem deleteMarkers_render {tokens : List (Token Char)} (hplain : Plain (chars tokens))
    (hmarks : ∀ m, .mark m ∈ tokens → m = verifyMarker ∨ m = firstAnswerMarker) :
    deleteMarkers (render tokens) = chars tokens := by
  have hverify := Markers.delete_render opens_verifyMarker (fun m hm => by
    rcases hmarks m hm with rfl | rfl
    · exact ⟨opens_verifyMarker, Or.inl rfl⟩
    · exact ⟨opens_firstAnswerMarker, Or.inr markers_differ⟩) hplain.verify
  have hrest : ∀ m, .mark m ∈ tokens.filter (fun token => token ≠ .mark verifyMarker) → m = firstAnswerMarker := by
    intro m hm
    obtain ⟨hmem, hne⟩ := List.mem_filter.mp hm
    rcases hmarks m hmem with rfl | rfl
    · exact absurd rfl (of_decide_eq_true hne)
    · rfl
  have hkept : chars (tokens.filter fun token => token ≠ .mark verifyMarker) = chars tokens :=
    Markers.chars_filter (fun c => rfl) tokens
  have hfirst := Markers.delete_render opens_firstAnswerMarker (fun m hm => by
    rw [hrest m hm]
    exact ⟨opens_firstAnswerMarker, Or.inl rfl⟩) (hkept ▸ hplain.firstAnswer)
  unfold deleteMarkers
  rw [hverify, hfirst, Markers.render_eq_chars, Markers.chars_filter fun c => rfl, hkept]
  intro m hm
  obtain ⟨hmem, hne⟩ := List.mem_filter.mp hm
  exact absurd (congrArg Token.mark (hrest m hmem)) (of_decide_eq_true hne)

theorem deleteMarkers_finishMarkers (accScore : Int) {marked : Text} (hplain : Plain text) (h : Marked text marked) :
    deleteMarkers (finishMarkers accScore marked) = text := by
  obtain ⟨tokens, rfl, rfl, hmarks⟩ := h
  obtain ⟨tokens', hchars, hrender, hmarks'⟩ :=
    Markers.replaceFirst_render firstAnswerMarker opens_verifyMarker hmarks hplain.verify
  rw [← hchars] at hplain ⊢
  unfold finishMarkers
  dsimp only
  rw [hrender]
  split
  · have happend : render tokens' ++ verifyMarker = render (tokens' ++ [.mark verifyMarker]) := by
      rw [Markers.render_append]
      exact congrArg (render tokens' ++ ·) (List.append_nil _).symm
    have hsame : chars (tokens' ++ [.mark verifyMarker]) = chars tokens' := by
      rw [Markers.chars_append]
      exact List.append_nil _
    rw [happend, deleteMarkers_render (hsame ▸ hplain), hsame]
    intro m hm
    rcases List.mem_append.mp hm with hm | hm
    · exact hmarks' m hm
    · exact Or.inl (Token.mark.inj (List.mem_singleton.mp hm))
  · exact deleteMarkers_render hplain hmarks'

theorem thinkTextParts_spec (hmarker : ¬ "<n>".toList <:+: text) :
    ∃ parts, thinkTextParts t text = .ok parts ∧ parts.flatten = text := by
  unfold thinkTextParts
  split
  · exact mergeClosestSum_spec t.toRegexes 1000 hmarker
  · exact ⟨[text], rfl, List.flatten_singleton⟩

theorem processLine_spec {data : LineData} {p : ParsedLine} (hparse : parseLine t data = .ok p)
    (hplain : Plain p.thinkText) :
    ∃ result, processLine t data = .ok result ∧ result.sftThinkTextOriginal = p.thinkText ∧
      deleteMarkers result.sftThinkTextFinal = p.thinkText := by
  unfold processLine
  rw [hparse]
  dsimp only
  split
  · obtain ⟨parts, hparts, hflatten⟩ := thinkTextParts_spec t hplain.newline
    have hmarked := processWithMultithreadingMap_marked t p.question p.ansEnd data.rewardVllmApi p.template
      data.rewardMethod fun part hpart h => hplain.newline (h.trans (hflatten ▸ List.infix_of_mem_flatten hpart))
    rw [hflatten] at hmarked
    rw [hparts]
    exact ⟨_, rfl, rfl, deleteMarkers_finishMarkers data.accScore hplain hmarked⟩
  · have hdelete := deleteMarkers_render
      (by rwa [Markers.chars_map_char]) fun m hm => by
        obtain ⟨c, -, hc⟩ := List.mem_map.mp hm
        cases hc
    rw [Markers.chars_map_char, Markers.render_map_char] at hdelete
    exact ⟨_, rfl, rfl, hdelete⟩

/-! ## When the inputs can be read -/

theorem pieceAt_ok {pieces : List Text} {i : Nat} (h : i < pieces.length) : ∃ piece, pieceAt pieces i = .ok piece := by
  unfold pieceAt
  rw [List.getElem?_eq_getElem h]
  exact ⟨_, rfl⟩

/-- Every response has a think text. -/
theorem thinkAndAnswer_ok (data : LineData) :
    ∃ thinkText answerText, thinkAndAnswer data = .ok (thinkText, answerText) := by
  unfold thinkAndAnswer
  dsimp only
  generalize Text.strip (["<｜User｜>", "<｜Assistant｜>", "<｜end▁of▁sentence｜>", "<|end_of_sentence|><eod>"].foldl
    (fun text sub => Text.replace sub.toList [] text) data.response) = solution
  split
  · have hbegin : "<think>".toList ≠ [] := by decide
    obtain ⟨behind, hbehind⟩ := pieceAt_ok (Text.two_le_length_split hbegin
      (List.prefix_append "<think>".toList (Text.strip solution)).isInfix)
    rw [hbehind, ok_bind]
    split
    · next hend =>
      obtain ⟨thought, hthought⟩ := pieceAt_ok (Text.one_le_length_splitFrom "</think>".toList 0 [] behind)
      have hsep : "</think>".toList ≠ [] := by decide
      obtain ⟨answer, hanswer⟩ := pieceAt_ok (Text.two_le_length_split hsep (of_decide_eq_true hend))
      have hthought' : pieceAt (Text.split "</think>".toList behind) 0 = .ok thought := hthought
      rw [hthought', ok_bind, hanswer]
      exact ⟨_, _, rfl⟩
    · exact ⟨_, _, rfl⟩
  · exact ⟨_, _, rfl⟩

/-- The inputs can be read if the reference answer has a text. -/
theorem parseLine_ok {data : LineData} (hanswer : getBoxedAnswerText t data.answer ≠ none) :
    ∃ p, parseLine t data = .ok p ∧ ∃ answerText, thinkAndAnswer data = .ok (p.thinkText, answerText) := by
  obtain ⟨thinkText, answerText, hthink⟩ := thinkAndAnswer_ok data
  obtain ⟨answerTrueNew, hnew⟩ := Option.ne_none_iff_exists'.mp hanswer
  unfold parseLine
  rw [hthink, ok_bind, hnew]
  exact ⟨_, rfl, answerText, rfl⟩

/-- Deleting the markers gives the think text back, where the reference answer has a text; the splits of a text lose
nothing and never raise. -/
theorem markers_deleted (t : MarkerTools) :
    (∀ data : LineData, getBoxedAnswerText t data.answer ≠ none → ∀ thinkText answerText,
      thinkAndAnswer data = .ok (thinkText, answerText) → Plain thinkText →
        ∃ result, processLine t data = .ok result ∧ result.sftThinkTextOriginal = thinkText ∧
          deleteMarkers result.sftThinkTextFinal = thinkText) ∧
      (∀ (text : Text) (targetLength : Int), ¬ "<n>".toList <:+: text →
        ∃ parts, mergeClosestSum t.toRegexes text targetLength = .ok parts ∧ parts.flatten = text) ∧
      (∀ (text : Text) (maxWords minWords : Nat), ¬ "<n>".toList <:+: text →
        ∃ parts, combineSmallLstMllm t.toRegexes text maxWords minWords = .ok parts ∧ parts.flatten = text) ∧
      ∀ (text : Text) (maxWords minWords : Nat),
        List.intercalate ['\n'] (combineSmallLst text maxWords minWords) = text := by
  refine ⟨fun data hanswer thinkText answerText hthink hplain => ?_, fun text => mergeClosestSum_spec t.toRegexes,
    fun text => combineSmallLstMllm_spec t.toRegexes, intercalate_combineSmallLst⟩
  obtain ⟨p, hparse, answerText', hthink'⟩ := parseLine_ok t hanswer
  cases hthink.symm.trans hthink'
  exact processLine_spec t hparse hplain

/-- A model that says nothing, and expressions that match nothing. -/
def silentTools : MarkerTools where
  chineseRun _ := false
  wordCount _ := 0
  chineseCount _ := 0
  isDigit _ := false
  stepMark _ _ := none
  isStepMark _ := false
  startsStepOrAnswer _ := false
  isOption _ := false
  format _ _ _ inputText := inputText
  qwenVllmInference _ _ _ := .ok []
  extractOne _ _ := none
  partialRatio _ _ := 0
  splitLocations text := [text]
  answerLocations _ := []
  hasChinese _ := false
  isCapital _ := false
  capitals _ := []
  dropBlankLines text := text
  closeBoxed text := text

/-- A model that names one place, which the matcher finds in the first segment. -/
def speakingTools : MarkerTools := { silentTools with
  qwenVllmInference _ _ _ := .ok ['c']
  splitLocations text := [[], text]
  extractOne _ segments := segments.head?
  partialRatio _ _ := 100 }

/-- The marker behind the think text is deleted again. -/
theorem markers_deleted_behind_segment :
    ∃ result, processLine speakingTools ⟨[], "ab".toList, ['x'], [], 0, false, []⟩ = .ok result ∧
      result.sftThinkTextFinal = "ab<1st_answer>".toList ∧ deleteMarkers result.sftThinkTextFinal = "ab".toList := by
  have hmarked : (processLine speakingTools ⟨[], "ab".toList, ['x'], [], 0, false, []⟩).map
      LineResult.sftThinkTextFinal = .ok "ab<1st_answer>".toList := by decide +kernel
  obtain ⟨result, hresult, -, hdelete⟩ := (markers_deleted speakingTools).1
    ⟨[], "ab".toList, ['x'], [], 0, false, []⟩ (by decide +kernel) "ab".toList [] (by decide +kernel)
    ⟨by decide, by decide, by decide⟩
  rw [hresult] at hmarked
  exact ⟨result, hresult, Except.ok.inj hmarked, hdelete⟩

/-- With a blank reference answer the think text is lost. -/
theorem think_text_lost_with_blank_answer :
    ¬ ∀ (t : MarkerTools) (data : LineData) (thinkText answerText : Text),
      thinkAndAnswer data = .ok (thinkText, answerText) → Plain thinkText →
        ∃ result, processLine t data = .ok result ∧ deleteMarkers result.sftThinkTextFinal = thinkText := by
  intro h
  obtain ⟨result, hresult, hdelete⟩ := h silentTools ⟨[], ['a'], [], [], 0, false, []⟩ ['a'] [] (by decide)
    ⟨by decide, by decide, by decide⟩
  cases hresult
  cases hdelete

end Yuan.Reward
