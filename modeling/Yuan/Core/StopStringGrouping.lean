import Yuan.Core.StopStrings

/-!
# Stop strings and the grouping of tokens

The first token with which a stop string completes decides the outcome. One by one, the stop string
that is listed first among those completed by that token wins. In a group, one that completes with
later tokens of the group wins if it is listed before all of them.
-/

namespace Yuan.Core

namespace BaseIncrementalDetokenizer

variable {params : StopParams} {d : BaseIncrementalDetokenizer} {pieces before after : List (List Char)}
  {piece : List Char} {groups : List (List (List Char))} {stopTerminated : Bool}

/-! ## The deciding token -/

/-- Decoding `piece` next ends the output: the token counts, and a stop string completes with it. -/
def Decides (params : StopParams) (d : BaseIncrementalDetokenizer) (piece : List Char) : Prop :=
  params.minTokens < d.numOutputTokens + 1 ∧
    ∃ stopStr ∈ params.stop, CompletesWith stopStr d.outputText piece

/-- None of the tokens `pieces` decides. -/
def Undecided (params : StopParams) (d : BaseIncrementalDetokenizer) (pieces : List (List Char)) :
    Prop :=
  ∀ before piece after, pieces = before ++ piece :: after → ¬ Decides params (d.decoded before) piece

theorem undecided_nil : Undecided params d [] := by
  intro before piece after hsplit
  exact absurd hsplit (by simp)

theorem Undecided.left {more : List (List Char)} (h : Undecided params d (pieces ++ more)) :
    Undecided params d pieces := by
  intro before piece after hsplit
  exact h before piece (after ++ more) (by rw [hsplit]; simp)

theorem Undecided.right {more : List (List Char)} (h : Undecided params d (pieces ++ more)) :
    Undecided params (d.decoded pieces) more := by
  intro before piece after hsplit
  rw [decoded_decoded]
  exact h (pieces ++ before) piece after (by rw [hsplit]; simp)

theorem Undecided.cons (hpiece : ¬ Decides params d piece) (h : Undecided params (d.decoded [piece]) pieces) :
    Undecided params d (piece :: pieces) := by
  intro before piece' after hsplit
  rcases before with _ | ⟨head, before⟩
  · obtain ⟨rfl, -⟩ := List.cons.inj hsplit
    rw [decoded_nil]
    exact hpiece
  · obtain ⟨rfl, htail⟩ := List.cons.inj hsplit
    have := h before piece' after htail
    rw [decoded_decoded] at this
    exact this

/-- Either no token decides, or there is a first one that does. -/
theorem undecided_or_decides (params : StopParams) (d : BaseIncrementalDetokenizer) (pieces : List (List Char)) :
    Undecided params d pieces ∨ ∃ before piece after, pieces = before ++ piece :: after ∧
      Undecided params d before ∧ Decides params (d.decoded before) piece := by
  classical
  induction pieces generalizing d with
  | nil => exact Or.inl undecided_nil
  | cons piece pieces ih =>
    by_cases hpiece : Decides params d piece
    · exact Or.inr ⟨[], piece, pieces, rfl, undecided_nil, by rw [decoded_nil]; exact hpiece⟩
    · rcases ih (d.decoded [piece]) with hnone | ⟨before, piece', after, hsplit, hquiet, hdecides⟩
      · exact Or.inl (hnone.cons hpiece)
      · refine Or.inr ⟨piece :: before, piece', after, by rw [hsplit]; rfl, hquiet.cons hpiece, ?_⟩
        rw [decoded_decoded] at hdecides
        exact hdecides

/-- Before the deciding token no stop string ends in text that is searched. -/
theorem Undecided.quiet (h : Undecided params d pieces) (hstop : ∀ s ∈ params.stop, s ≠ []) {stopStr : List Char}
    (hmem : stopStr ∈ params.stop) {i : Nat} (hoccurs : OccursAt stopStr (d.decoded pieces).outputText i) :
    i + stopStr.length ≤ (d.decoded (unsearched params d pieces)).outputText.length := by
  induction pieces using List.reverseRecOn with
  | nil =>
    rw [unsearched, List.take_nil]
    exact hoccurs.length_le (hstop stopStr hmem)
  | append_singleton pieces piece ih =>
    have hend := hoccurs.length_le (hstop stopStr hmem)
    rw [← decoded_decoded, outputText_decoded, List.flatten_singleton] at hoccurs
    rcases Nat.lt_or_ge params.minTokens (d.numOutputTokens + pieces.length + 1) with hmin | hmin
    · -- the last token counts, so the stop string ends before it
      have hsame : unsearched params d (pieces ++ [piece]) = unsearched params d pieces := by
        rw [unsearched, List.take_append_of_le_length (by omega), unsearched]
      rw [hsame]
      apply ih h.left
      apply hoccurs.of_append
      by_contra hbehind
      apply h pieces piece [] rfl
      exact ⟨hmin, stopStr, hmem, i, hoccurs, by omega⟩
    · have hall : unsearched params d (pieces ++ [piece]) = pieces ++ [piece] := by
        apply List.take_of_length_le
        rw [List.length_append, List.length_singleton]
        omega
      rw [hall]
      exact hend

/-- A group without a deciding token is decoded, and no stop string is found. -/
theorem update_of_undecided (h : Undecided params d pieces) (hstop : ∀ s ∈ params.stop, s ≠ []) :
    update params d pieces false = (d.decoded pieces, none) := by
  have hnone : (update params d pieces false).2 = none := by
    have houtcome := outcome_update hstop d pieces
    have hverdict : verdict params.includeStopStrInOutput (d.outputText ++ pieces.flatten)
        (d.decoded (unsearched params d pieces)).outputText.length params.stop =
          (none, d.outputText ++ pieces.flatten) :=
      verdict_eq_none hstop _ fun s hs i hoccurs => h.quiet hstop hs hoccurs
    rw [hverdict, ite_self] at houtcome
    exact congrArg Prod.fst houtcome
  exact Prod.ext (update_of_none hnone) hnone

/-- The answer of a group with the deciding token `piece`: only text behind what came before it
matters. -/
theorem outcome_update_of_decides (hquiet : Undecided params d before)
    (hdecides : Decides params (d.decoded before) piece) (hstop : ∀ s ∈ params.stop, s ≠ []) :
    outcome (update params d (before ++ piece :: after) false) = verdict params.includeStopStrInOutput
        ((d.decoded before).outputText ++ piece ++ after.flatten) (d.decoded before).outputText.length params.stop := by
  have hmin := hdecides.1
  rw [numOutputTokens_decoded] at hmin
  have htext : d.outputText ++ (before ++ piece :: after).flatten =
      (d.decoded before).outputText ++ (piece ++ after.flatten) := by
    simp
  have hsame : unsearched params d (before ++ piece :: after) = unsearched params d before := by
    rw [unsearched, List.take_append_of_le_length (by omega), unsearched]
  rw [outcome_update hstop, if_pos (by rw [List.length_append, List.length_cons]; omega), htext, hsame,
    List.append_assoc]
  apply verdict_eq_of_quiet hstop (length_unsearched_le d before)
  intro s hs i hoccurs hend
  exact hquiet.quiet hstop hs (hoccurs.of_append hend)

/-! ## Groups one after another -/

theorem feed_of_undecided (h : Undecided params d groups.flatten) (hstop : ∀ s ∈ params.stop, s ≠ []) :
    feed params d groups false = (d.decoded groups.flatten, none) := by
  induction groups generalizing d with
  | nil => simp [feed]
  | cons group rest ih =>
    rw [feed, Bool.false_and, update_of_undecided h.left hstop]
    simp only
    rw [ih h.right, decoded_decoded, List.flatten_cons]

theorem outcome_feed_of_decides {earlier later : List (List (List Char))}
    (hquiet : Undecided params d (earlier.flatten ++ before))
    (hdecides : Decides params (d.decoded (earlier.flatten ++ before)) piece) (hstop : ∀ s ∈ params.stop, s ≠ []) :
    outcome (feed params d (earlier ++ (before ++ piece :: after) :: later) false) =
      verdict params.includeStopStrInOutput
        ((d.decoded (earlier.flatten ++ before)).outputText ++ piece ++ after.flatten)
        (d.decoded (earlier.flatten ++ before)).outputText.length params.stop := by
  induction earlier generalizing d with
  | nil =>
    rw [List.nil_append, feed, Bool.false_and]
    rw [List.flatten_nil, List.nil_append] at hquiet hdecides ⊢
    have houtcome : outcome (update params d (before ++ piece :: after) false) =
        verdict params.includeStopStrInOutput
          ((d.decoded before).outputText ++ piece ++ after.flatten)
          (d.decoded before).outputText.length params.stop :=
      outcome_update_of_decides hquiet hdecides hstop
    -- some stop string is found, so the groups behind are not fed
    obtain ⟨s, hs, hcomplete⟩ := hdecides.2
    have hfound := firstBehind_append_ne_none (hstop s hs) ((completesWith_iff (hstop s hs)).mp hcomplete)
      after.flatten
    obtain ⟨s', -, -, hverdict⟩ := verdict_ne_none params.includeStopStrInOutput ⟨s, hs, hfound⟩
    rw [← houtcome] at hverdict
    rw [← houtcome]
    cases hupdate : update params d (before ++ piece :: after) false with
    | mk d' stopString =>
      rw [hupdate] at hverdict
      have hsome : stopString = some s' := hverdict
      rw [hsome]
  | cons group earlier ih =>
    rw [List.flatten_cons, List.append_assoc group] at hquiet hdecides ⊢
    rw [List.cons_append, feed, Bool.false_and, update_of_undecided hquiet.left hstop]
    simp only
    rw [← decoded_decoded d group] at hdecides ⊢
    exact ih hquiet.right hdecides

/-- In every group the deciding token completes a stop string that is listed at or before each one
that completes with later tokens of the group. -/
def InListOrder (params : StopParams) (d : BaseIncrementalDetokenizer)
    (groups : List (List (List Char))) : Prop :=
  ∀ earlier before piece after later, groups = earlier ++ (before ++ piece :: after) :: later →
    Undecided params d (earlier.flatten ++ before) →
    Decides params (d.decoded (earlier.flatten ++ before)) piece →
      ListedFirst params.stop (d.decoded (earlier.flatten ++ before)).outputText piece after.flatten

/-- A token of the stream stands in some group. -/
theorem exists_group (h : groups.flatten = before ++ piece :: after) :
    ∃ earlier front behind later, groups = earlier ++ (front ++ piece :: behind) :: later ∧
      earlier.flatten ++ front = before := by
  rcases List.flatten_eq_append_iff.mp h with ⟨as, bs, rfl, hbefore, hrest⟩ |
    ⟨as, bs, c, cs, ds, rfl, hbefore, hrest⟩
  · obtain ⟨as', behind, later, rfl, hnil, -⟩ := List.flatten_eq_cons_iff.mp hrest.symm
    refine ⟨as ++ as', [], behind, later, by simp, ?_⟩
    rw [List.flatten_append, List.flatten_eq_nil_iff.mpr hnil, hbefore]
    simp
  · rw [List.cons_append] at hrest
    obtain ⟨rfl, -⟩ := List.cons.inj hrest
    exact ⟨as, bs, cs, ds, rfl, hbefore.symm⟩

/-- Groups of one token each answer like the deciding token alone. -/
theorem outcome_feed_singles (hone : ∀ g ∈ groups, g.length ≤ 1) (hsplit : groups.flatten = before ++ piece :: after)
    (hquiet : Undecided params d before) (hdecides : Decides params (d.decoded before) piece)
    (hstop : ∀ s ∈ params.stop, s ≠ []) :
    outcome (feed params d groups false) =
      verdict params.includeStopStrInOutput ((d.decoded before).outputText ++ piece)
        (d.decoded before).outputText.length params.stop := by
  obtain ⟨earlier, front, behind, later, rfl, hbefore⟩ := exists_group hsplit
  have hlen := hone (front ++ piece :: behind) (by simp)
  rw [List.length_append, List.length_cons] at hlen
  have hfront : front = [] := List.eq_nil_of_length_eq_zero (by omega)
  have hbehind : behind = [] := List.eq_nil_of_length_eq_zero (by omega)
  subst hbefore hfront hbehind
  rw [outcome_feed_of_decides hquiet hdecides hstop, List.flatten_nil, List.append_nil]

/-- Groups answer like their tokens one by one exactly if they are in list order. -/
theorem outcome_feed_eq_iff {singles : List (List (List Char))} (hflatten : singles.flatten = groups.flatten)
    (hone : ∀ g ∈ singles, g.length ≤ 1) (hstop : ∀ s ∈ params.stop, s ≠ []) :
    outcome (feed params d groups false) = outcome (feed params d singles false) ↔ InListOrder params d groups := by
  constructor
  · intro hsame earlier before piece after later hgroups hquiet hdecides
    have hsplit : singles.flatten =
        (earlier.flatten ++ before) ++ piece :: (after ++ later.flatten) := by
      rw [hflatten, hgroups]
      simp
    rw [hgroups, outcome_feed_of_decides hquiet hdecides hstop,
      outcome_feed_singles hone hsplit hquiet hdecides hstop] at hsame
    exact (verdict_append_iff hstop after.flatten _ hdecides.2).mp hsame
  · intro horder
    rcases undecided_or_decides params d groups.flatten with
      hnone | ⟨before, piece, after, hsplit, hquiet, hdecides⟩
    · rw [feed_of_undecided hnone hstop, feed_of_undecided (by rw [hflatten]; exact hnone) hstop,
        hflatten]
    · rw [outcome_feed_singles hone (hflatten.trans hsplit) hquiet hdecides hstop]
      obtain ⟨earlier, front, behind, later, rfl, rfl⟩ := exists_group hsplit
      rw [outcome_feed_of_decides hquiet hdecides hstop]
      exact (verdict_append_iff hstop behind.flatten _ hdecides.2).mpr
        (horder earlier front piece behind later rfl hquiet hdecides)

/-! ## A stop token at the end -/

/-- The tokens that are decoded: of the last group without the stop token, if there is one that is
not. -/
def decodedGroups (params : StopParams) (stopTerminated : Bool) :
    List (List (List Char)) → List (List (List Char))
  | [] => []
  | [group] =>
    [if stopTerminated && !params.includeStopStrInOutput then group.dropLast else group]
  | group :: next :: rest => group :: decodedGroups params stopTerminated (next :: rest)

/-- The stop token counts as a token, but brings no text to search. -/
theorem outcome_update_stopTerminated (hstop : ∀ s ∈ params.stop, s ≠ []) (d : BaseIncrementalDetokenizer)
    (hne : pieces ≠ []) (hskip : params.includeStopStrInOutput = false) :
    outcome (update params d pieces true) = outcome (update params d pieces.dropLast false) := by
  rw [outcome_update hstop, update, if_neg hne, hskip, Bool.not_false, Bool.and_self, if_pos rfl,
    decodeLoop_start]
  have hevaluate : outcome (evaluateStop params
      ⟨(d.decoded pieces.dropLast).outputText, d.numOutputTokens + pieces.dropLast.length + 1⟩
        (d.decoded (unsearched params d pieces.dropLast)).outputText.length) =
      if params.minTokens < d.numOutputTokens + pieces.dropLast.length + 1 then
        verdict false (d.decoded pieces.dropLast).outputText
          (d.decoded (unsearched params d pieces.dropLast)).outputText.length params.stop
      else (none, (d.decoded pieces.dropLast).outputText) := by
    rw [← hskip]
    exact outcome_evaluateStop hstop (length_unsearched_le d pieces.dropLast)
  refine hevaluate.trans ?_
  rw [outputText_decoded d pieces.dropLast]
  rcases Nat.lt_trichotomy params.minTokens (d.numOutputTokens + pieces.dropLast.length) with
    hlt | heq | hgt
  · rw [if_pos (by omega), if_pos hlt]
  · -- all decoded tokens are among the first `min_tokens`
    have hall : unsearched params d pieces.dropLast = pieces.dropLast :=
      List.take_of_length_le (by omega)
    rw [if_pos (by omega), if_neg (by omega), hall]
    exact verdict_eq_none hstop _ fun s hs i hoccurs => hoccurs.length_le (hstop s hs)
  · rw [if_neg (by omega), if_neg (by omega)]

theorem update_includeStop (hinclude : params.includeStopStrInOutput = true)
    (d : BaseIncrementalDetokenizer) (pieces : List (List Char)) (stopTerminated : Bool) :
    update params d pieces stopTerminated = update params d pieces false := by
  rw [update, update, hinclude, Bool.not_true, Bool.and_false, Bool.and_false]

theorem feed_singleton (d : BaseIncrementalDetokenizer) (group : List (List Char)) (stopTerminated : Bool) :
    feed params d [group] stopTerminated = update params d group stopTerminated := by
  rw [feed, List.isEmpty_nil, Bool.and_true]
  cases update params d group stopTerminated with
  | mk d' stopString =>
    cases stopString with
    | none => rfl
    | some s => rfl

/-- Feeding up to a stop token is feeding what is decoded. -/
theorem outcome_feed_decodedGroups (hstop : ∀ s ∈ params.stop, s ≠ [])
    (hlast : stopTerminated = true → groups.getLast? ≠ some []) :
    outcome (feed params d groups stopTerminated) =
      outcome (feed params d (decodedGroups params stopTerminated groups) false) := by
  induction groups generalizing d with
  | nil => rfl
  | cons group rest ih =>
    rcases rest with _ | ⟨next, rest⟩
    · rw [decodedGroups, feed_singleton, feed_singleton]
      cases stopTerminated with
      | false => simp
      | true =>
        cases hinclude : params.includeStopStrInOutput with
        | true => simp [update_includeStop hinclude d group true]
        | false =>
          have hne : group ≠ [] := by
            intro hnil
            exact hlast rfl (by rw [hnil]; rfl)
          exact outcome_update_stopTerminated hstop d hne hinclude
    · have hlast' : stopTerminated = true → (next :: rest).getLast? ≠ some [] := by
        intro hterm
        have := hlast hterm
        exact this
      rw [decodedGroups, feed, feed, List.isEmpty_cons, Bool.and_false, Bool.false_and]
      cases update params d group false with
      | mk d' stopString =>
        cases stopString with
        | some s => rfl
        | none => exact ih hlast'

theorem flatten_decodedGroups (hlast : stopTerminated = true → groups.getLast? ≠ some []) :
    (decodedGroups params stopTerminated groups).flatten =
      if stopTerminated && !params.includeStopStrInOutput then groups.flatten.dropLast
      else groups.flatten := by
  induction groups with
  | nil => simp [decodedGroups]
  | cons group rest ih =>
    rcases rest with _ | ⟨next, rest⟩
    · rw [decodedGroups]
      split <;> simp
    · have hlast' : stopTerminated = true → (next :: rest).getLast? ≠ some [] := by
        intro hterm
        have := hlast hterm
        exact this
      rw [decodedGroups, List.flatten_cons, ih hlast']
      split
      case isTrue hskip =>
        rw [Bool.and_eq_true] at hskip
        have hne : (next :: rest).flatten ≠ [] := by
          intro hnil
          apply hlast' hskip.1
          exact congrArg some (List.flatten_eq_nil_iff.mp hnil _ (List.getLast_mem _))
        rw [List.flatten_cons (l := group), List.dropLast_append_of_ne_nil hne]
      case isFalse => rfl

theorem length_decodedGroups_le (hone : ∀ g ∈ groups, g.length ≤ 1) :
    ∀ g ∈ decodedGroups params stopTerminated groups, g.length ≤ 1 := by
  induction groups with
  | nil => exact hone
  | cons group rest ih =>
    have hgroup := hone group List.mem_cons_self
    rcases rest with _ | ⟨next, rest⟩
    · intro g hg
      rw [decodedGroups, List.mem_singleton] at hg
      rw [hg]
      split
      case isTrue =>
        rw [List.length_dropLast]
        omega
      case isFalse => exact hgroup
    · intro g hg
      rcases List.mem_cons.mp hg with rfl | hg
      · exact hgroup
      · exact ih (fun g hg => hone g (List.mem_cons_of_mem _ hg)) g hg

/-- The tokens of all groups, one by one. -/
def oneByOne (groups : List (List (List Char))) : List (List (List Char)) :=
  groups.flatten.map fun piece => [piece]

theorem flatten_oneByOne (groups : List (List (List Char))) : (oneByOne groups).flatten = groups.flatten := by
  exact List.flatMap_singleton' _

/-- Feeding groups of tokens returns the same stop string and leaves the same text as feeding the
tokens one by one exactly if, whenever a token is the first to complete stop strings, no stop string
that completes with later tokens of its group is listed before all of them. -/
theorem outcome_feed_oneByOne_iff (params : StopParams) (hstop : ∀ s ∈ params.stop, s ≠ [])
    (d : BaseIncrementalDetokenizer) (groups : List (List (List Char))) (stopTerminated : Bool)
    (hlast : stopTerminated = true → groups.getLast? ≠ some []) :
    outcome (feed params d groups stopTerminated) = outcome (feed params d (oneByOne groups) stopTerminated) ↔
      InListOrder params d (decodedGroups params stopTerminated groups) := by
  have hlast' : stopTerminated = true → (oneByOne groups).getLast? ≠ some [] := by
    intro _ hnil
    have hmem := List.mem_of_getLast? hnil
    obtain ⟨piece, -, hpiece⟩ := List.mem_map.mp hmem
    exact absurd hpiece (List.cons_ne_nil _ _)
  have hone : ∀ g ∈ oneByOne groups, g.length ≤ 1 := by
    intro g hg
    obtain ⟨piece, -, rfl⟩ := List.mem_map.mp hg
    exact Nat.le_refl 1
  rw [outcome_feed_decodedGroups hstop hlast, outcome_feed_decodedGroups hstop hlast']
  apply outcome_feed_eq_iff _ (length_decodedGroups_le hone) hstop
  rw [flatten_decodedGroups hlast, flatten_decodedGroups hlast', flatten_oneByOne]

/-- The stop strings `b` and `a`, in this order. -/
def twoStops : StopParams where
  stop := [['b'], ['a']]

/-- `b` in a group behind that of `a` comes too late for the text of `a`; in the same group it does not. -/
theorem outcome_feed_oneByOne_iff_two_stops :
    InListOrder twoStops {} (decodedGroups twoStops false [[['x'], ['a']], [['b']]]) ∧
      ¬ InListOrder twoStops {} (decodedGroups twoStops false [[['x'], ['a'], ['b']]]) := by
  constructor
  · exact (outcome_feed_oneByOne_iff twoStops (by decide) {} _ false nofun).mp (by decide)
  · intro horder
    have heq := (outcome_feed_oneByOne_iff twoStops (by decide) {} [[['x'], ['a'], ['b']]] false nofun).mpr horder
    revert heq
    decide

/-- The group `a`, `b` returns `b` and the text `a`; one by one the stop string is `a` and the text is
empty. -/
theorem outcome_feed_depends_on_groups :
    ¬ ∀ (params : StopParams), (∀ s ∈ params.stop, s ≠ []) → ∀ groups : List (List (List Char)),
      outcome (feed params {} groups false) = outcome (feed params {} (oneByOne groups) false) := by
  intro h
  have := h twoStops (by decide) [[['a'], ['b']]]
  revert this
  decide

end BaseIncrementalDetokenizer

end Yuan.Core
