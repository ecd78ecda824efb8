import Yuan.Core.StopStringGrouping
import Yuan.Frontend.OutputProcessor

/-!
# Streamed text

Text is sent in pieces. What was sent is never cut off again: as many characters as a stop string that
completes later can reach are held back.
-/

namespace Yuan.Frontend

open Yuan.Core (StopParams BaseIncrementalDetokenizer)

/-! ## What an update may cut off -/

theorem le_foldl_max {l : List Nat} {a n : Nat} (h : n ≤ a ∨ n ∈ l) : n ≤ l.foldl max a := by
  induction l generalizing a with
  | nil =>
    rcases h with h | h
    · exact h
    · cases h
  | cons b l ih =>
    apply ih
    rcases h with h | h
    · exact Or.inl (by omega)
    · rcases List.mem_cons.mp h with rfl | h
      · exact Or.inl (by omega)
      · exact Or.inr h

theorem length_le_longest {stop : List (List Char)} {s : List Char} (h : s ∈ stop) : s.length ≤ longest stop :=
  le_foldl_max (Or.inr (List.mem_map_of_mem h))

/-- The characters that no stop string completed by later text can reach. -/
def Settled (params : StopParams) (length kept : Nat) : Prop :=
  kept = 0 ∨ (kept : Int) ≤ length - Decoder.stopBufferLength params

/-- Settled text stays when text is cut at a stop string that completes behind it. -/
theorem take_prefix_verdict {params : StopParams} {stop : List (List Char)}
    (hsub : ∀ s ∈ stop, s ∈ params.stop) (hstop : ∀ s ∈ params.stop, s ≠ []) {text : List Char}
    {searched kept : Nat} (hkept : Settled params searched kept) :
    text.take kept <+: (Core.verdict params.includeStopStrInOutput text searched stop).2 := by
  induction stop with
  | nil => exact List.take_prefix _ _
  | cons s stop ih =>
    have hmem := hsub s List.mem_cons_self
    rw [Core.verdict]
    cases hfound : Core.firstBehind text s searched with
    | none => exact ih fun t ht => hsub t (List.mem_cons_of_mem _ ht)
    | some i =>
      obtain ⟨-, hbehind, -⟩ := (Core.firstBehind_eq_some (hstop s hmem)).mp hfound
      have hlen := length_le_longest hmem
      have hne : params.stop ≠ [] := List.ne_nil_of_mem hmem
      apply List.take_prefix_take_left
      rcases hkept with rfl | hkept
      · exact Nat.zero_le _
      · rw [Decoder.stopBufferLength] at hkept
        cases hinclude : params.includeStopStrInOutput with
        | true =>
          rw [if_pos rfl]
          omega
        | false =>
          rw [hinclude, if_pos ⟨hne, rfl⟩] at hkept
          rw [if_neg (by simp)]
          omega

/-- Settled text stays in every update. -/
theorem take_prefix_update {params : StopParams} (hstop : ∀ s ∈ params.stop, s ≠ [])
    (d : BaseIncrementalDetokenizer) (pieces : List (List Char)) (stopTerminated : Bool) {kept : Nat}
    (hkept : Settled params d.outputText.length kept) (hle : kept ≤ d.outputText.length) :
    d.outputText.take kept <+: (d.update params pieces stopTerminated).1.outputText := by
  -- the text of an update that decodes all its tokens
  have hdecoded : ∀ pieces, d.outputText.take kept <+: (d.update params pieces false).1.outputText := by
    intro pieces
    have houtcome := congrArg Prod.snd (Core.BaseIncrementalDetokenizer.outcome_update hstop d pieces)
    change (d.update params pieces false).1.outputText = _ at houtcome
    have htake : (d.outputText ++ pieces.flatten).take kept = d.outputText.take kept :=
      List.take_append_of_le_length hle
    rw [houtcome]
    split
    · rw [← htake]
      apply take_prefix_verdict (fun _ h => h) hstop
      rcases hkept with hzero | hkept
      · exact Or.inl hzero
      · have hmore : d.outputText.length ≤
            (d.decoded (Core.BaseIncrementalDetokenizer.unsearched params d pieces)).outputText.length := by
          rw [Core.BaseIncrementalDetokenizer.outputText_decoded, List.length_append]
          omega
        exact Or.inr (by omega)
    · rw [← htake]
      exact List.take_prefix _ _
  cases stopTerminated with
  | false => exact hdecoded pieces
  | true =>
    by_cases hnil : pieces = []
    · subst hnil
      exact hdecoded []
    · cases hinclude : params.includeStopStrInOutput with
      | true =>
        rw [Core.BaseIncrementalDetokenizer.update_includeStop hinclude]
        exact hdecoded pieces
      | false =>
        have hskip := congrArg Prod.snd
          (Core.BaseIncrementalDetokenizer.outcome_update_stopTerminated hstop d hnil hinclude)
        change (d.update params pieces true).1.outputText =
          (d.update params pieces.dropLast false).1.outputText at hskip
        rw [hskip]
        exact hdecoded pieces.dropLast

/-- Where no stop string is found, text is only added. -/
theorem length_le_of_none {params : StopParams} (hstop : ∀ s ∈ params.stop, s ≠ [])
    (d : BaseIncrementalDetokenizer) (pieces : List (List Char)) (stopTerminated : Bool)
    (hnone : (d.update params pieces stopTerminated).2 = none) :
    d.outputText.length ≤ (d.update params pieces stopTerminated).1.outputText.length := by
  have hdecoded : ∀ pieces, (d.update params pieces false).2 = none →
      d.outputText.length ≤ (d.update params pieces false).1.outputText.length := by
    intro pieces hnone
    rw [Core.BaseIncrementalDetokenizer.update_of_none hnone,
      Core.BaseIncrementalDetokenizer.outputText_decoded, List.length_append]
    omega
  cases stopTerminated with
  | false => exact hdecoded pieces hnone
  | true =>
    by_cases hnil : pieces = []
    · subst hnil
      exact hdecoded [] hnone
    · cases hinclude : params.includeStopStrInOutput with
      | true =>
        rw [Core.BaseIncrementalDetokenizer.update_includeStop hinclude] at hnone ⊢
        exact hdecoded pieces hnone
      | false =>
        have hskip :=
          Core.BaseIncrementalDetokenizer.outcome_update_stopTerminated hstop d hnil hinclude
        have hfound : (d.update params pieces true).2 = (d.update params pieces.dropLast false).2 :=
          congrArg Prod.fst hskip
        have htext : (d.update params pieces true).1.outputText =
            (d.update params pieces.dropLast false).1.outputText := congrArg Prod.snd hskip
        rw [htext]
        exact hdecoded _ (hfound.symm.trans hnone)

/-! ## The text of a request -/

theorem Decoder.text_getNextOutputText (decoder : Decoder) (finished delta : Bool) :
    (decoder.getNextOutputText finished delta).1.text = decoder.text := by
  simp only [getNextOutputText]
  repeat' split
  all_goals rfl

namespace IncrementalDetokenizer

variable {params : StopParams} {d : IncrementalDetokenizer} {text : List Char}

/-- All the text of a request. -/
def outputText (d : IncrementalDetokenizer) : List Char :=
  match d.decoder with
  | none => []
  | some decoder => decoder.text.outputText

/-- `text` was sent. -/
def Sent (d : IncrementalDetokenizer) (text : List Char) : Prop :=
  text <+: d.outputText ∧ ∀ decoder, d.decoder = some decoder →
    decoder.lastOutputTextOffset = text.length

/-- What may still be cut off was not sent. -/
def Held (params : StopParams) (d : IncrementalDetokenizer) (text : List Char) : Prop :=
  ∀ decoder, d.decoder = some decoder →
    decoder.params = params ∧ Settled params d.outputText.length text.length

@[simp] theorem update_nil (d : IncrementalDetokenizer) (stopTerminated : Bool) :
    d.update [] stopTerminated = (d, none) := by
  obtain ⟨promptLen, tokenIds, decoder⟩ := d
  cases decoder with
  | none => simp [update]
  | some decoder => simp [update]

theorem decoder_update_of_none (hdecoder : d.decoder = none) (newTokenIds : List Nat)
    (stopTerminated : Bool) :
    d.update newTokenIds stopTerminated = ({ d with tokenIds := d.tokenIds ++ newTokenIds }, none) := by
  unfold update
  rw [hdecoder]

theorem decoder_update_of_some {decoder : Decoder} (hdecoder : d.decoder = some decoder)
    {newTokenIds : List Nat} (hne : newTokenIds ≠ []) (stopTerminated : Bool) :
    d.update newTokenIds stopTerminated =
      ({ d with tokenIds := d.tokenIds ++ newTokenIds
                decoder := some (decoder.update newTokenIds stopTerminated).1 },
        (decoder.update newTokenIds stopTerminated).2) := by
  unfold update
  rw [hdecoder]
  exact if_neg hne

/-- What was sent stays sent in every update. -/
theorem Sent.update (h : Sent d text) (hheld : Held params d text)
    (hstop : ∀ s ∈ params.stop, s ≠ []) (newTokenIds : List Nat) (stopTerminated : Bool) :
    Sent (d.update newTokenIds stopTerminated).1 text := by
  obtain ⟨hpre, hoffset⟩ := h
  by_cases hne : newTokenIds = []
  · subst hne
    rw [update_nil]
    exact ⟨hpre, hoffset⟩
  cases hdecoder : d.decoder with
  | none =>
    rw [decoder_update_of_none hdecoder]
    refine ⟨?_, fun decoder hsome => ?_⟩
    · unfold outputText at hpre ⊢
      rw [hdecoder] at hpre
      rw [hdecoder]
      exact hpre
    · rw [hdecoder] at hsome
      cases hsome
  | some decoder =>
    obtain ⟨hparams, hsettled⟩ := hheld decoder hdecoder
    have htext : d.outputText = decoder.text.outputText := by
      unfold outputText
      rw [hdecoder]
    rw [htext] at hpre hsettled
    rw [decoder_update_of_some hdecoder hne]
    refine ⟨?_, ?_⟩
    · have hkeep := take_prefix_update hstop decoder.text
        (decodePieces decoder.decodeNext decoder.decodedIds newTokenIds) stopTerminated hsettled
        hpre.length_le
      rw [← List.prefix_iff_eq_take.mp hpre, ← hparams] at hkeep
      exact hkeep
    · intro decoder' hsome
      cases hsome
      exact hoffset decoder hdecoder

/-- Without a stop string, what was held back stays so. -/
theorem Held.update (h : Held params d text) (hstop : ∀ s ∈ params.stop, s ≠ [])
    (newTokenIds : List Nat) (stopTerminated : Bool) (hnone : (d.update newTokenIds stopTerminated).2 = none) :
    Held params (d.update newTokenIds stopTerminated).1 text := by
  by_cases hne : newTokenIds = []
  · subst hne
    rw [update_nil]
    exact h
  cases hdecoder : d.decoder with
  | none =>
    rw [decoder_update_of_none hdecoder]
    intro decoder hsome
    rw [hdecoder] at hsome
    cases hsome
  | some decoder =>
    obtain ⟨hparams, hsettled⟩ := h decoder hdecoder
    have htext : d.outputText = decoder.text.outputText := by
      unfold outputText
      rw [hdecoder]
    rw [decoder_update_of_some hdecoder hne] at hnone ⊢
    intro decoder' hsome
    cases hsome
    refine ⟨hparams, ?_⟩
    rw [htext] at hsettled
    have hgrow := length_le_of_none hstop decoder.text
      (decodePieces decoder.decodeNext decoder.decodedIds newTokenIds) stopTerminated
      (by rw [← hparams]; exact hnone)
    rw [← hparams] at hgrow
    rcases hsettled with hzero | hle
    · exact Or.inl hzero
    · refine Or.inr (Int.le_trans hle (Int.sub_le_sub_right ?_ _))
      exact Int.ofNat_le.mpr hgrow

theorem outputText_getNextOutputText (d : IncrementalDetokenizer) (finished delta : Bool) :
    (d.getNextOutputText finished delta).1.outputText = d.outputText := by
  unfold getNextOutputText outputText
  cases hdecoder : d.decoder with
  | none => rw [hdecoder]
  | some decoder =>
    show (decoder.getNextOutputText finished delta).1.text.outputText = decoder.text.outputText
    rw [Decoder.text_getNextOutputText]

theorem tokenIds_getNextOutputText (d : IncrementalDetokenizer) (finished delta : Bool) :
    (d.getNextOutputText finished delta).1.tokenIds = d.tokenIds ∧
      (d.getNextOutputText finished delta).1.promptLen = d.promptLen := by
  unfold getNextOutputText
  cases d.decoder with
  | none => exact ⟨rfl, rfl⟩
  | some decoder => exact ⟨rfl, rfl⟩

/-- The last piece of text completes it. -/
theorem Sent.finished (h : Sent d text) :
    text ++ (d.getNextOutputText true true).2 = d.outputText ∧ Sent (d.getNextOutputText true true).1 d.outputText := by
  obtain ⟨hpre, hoffset⟩ := h
  unfold Sent
  rw [outputText_getNextOutputText]
  cases hdecoder : d.decoder with
  | none =>
    have hempty : d.outputText = [] := by
      unfold outputText
      rw [hdecoder]
    rw [hempty] at hpre ⊢
    have hgetNext : d.getNextOutputText true true = (d, []) := by
      unfold getNextOutputText
      rw [hdecoder]
    rw [hgetNext, List.prefix_nil.mp hpre]
    refine ⟨rfl, List.prefix_rfl, fun decoder hsome => ?_⟩
    rw [hdecoder] at hsome
    cases hsome
  | some decoder =>
    have hlast := hoffset decoder hdecoder
    have htext : d.outputText = decoder.text.outputText := by
      unfold outputText
      rw [hdecoder]
    obtain ⟨rest, hrest⟩ := hpre
    unfold getNextOutputText
    rw [hdecoder]
    unfold Decoder.getNextOutputText
    simp only [Bool.not_true, Bool.false_eq_true, ↓reduceIte, Int.sub_zero]
    rw [hlast, ← htext]
    split
    case isTrue =>
      refine ⟨?_, List.prefix_rfl, ?_⟩
      · have hall : sliceTo d.outputText d.outputText.length = d.outputText := by
          unfold sliceTo
          rw [if_neg (by omega), Int.toNat_natCast, List.take_length]
        rw [hall, ← hrest, Int.toNat_natCast, List.drop_left]
      · intro decoder' hsome
        cases hsome
        rfl
    case isFalse hge =>
      have hnil : rest = [] := by
        have := congrArg List.length hrest
        rw [List.length_append] at this
        exact List.length_eq_zero_iff.mp (by omega)
      rw [hnil, List.append_nil] at hrest
      refine ⟨by rw [List.append_nil, hrest], List.prefix_rfl, ?_⟩
      intro decoder' hsome
      cases hsome
      rw [← hrest]
      exact hlast

/-- A piece of text that is not the last one leaves what may be cut off. -/
theorem Sent.unfinished (h : Sent d text) (hheld : Held params d text) (hstop : ∀ s ∈ params.stop, s ≠ []) :
    Sent (d.getNextOutputText false true).1 (text ++ (d.getNextOutputText false true).2) ∧
      Held params (d.getNextOutputText false true).1 (text ++ (d.getNextOutputText false true).2) := by
  obtain ⟨hpre, hoffset⟩ := h
  unfold Sent Held
  rw [outputText_getNextOutputText]
  cases hdecoder : d.decoder with
  | none =>
    have hgetNext : d.getNextOutputText false true = (d, []) := by
      unfold getNextOutputText
      rw [hdecoder]
    rw [hgetNext, List.append_nil]
    refine ⟨⟨hpre, ?_⟩, ?_⟩
    · intro decoder hsome
      rw [hdecoder] at hsome
      cases hsome
    · intro decoder hsome
      rw [hdecoder] at hsome
      cases hsome
  | some decoder =>
    have hlast := hoffset decoder hdecoder
    obtain ⟨hparams, hsettled⟩ := hheld decoder hdecoder
    have htext : d.outputText = decoder.text.outputText := by
      unfold outputText
      rw [hdecoder]
    have hbuffer : 0 ≤ Decoder.stopBufferLength params := by
      unfold Decoder.stopBufferLength
      split
      case isTrue hboth =>
        obtain ⟨s, hs⟩ := List.exists_mem_of_ne_nil _ hboth.1
        have := length_le_longest hs
        have := List.length_pos_iff.mpr (hstop s hs)
        omega
      case isFalse => exact Int.le_refl _
    unfold getNextOutputText
    rw [hdecoder]
    unfold Decoder.getNextOutputText
    simp only [Bool.not_true, Bool.false_eq_true, ↓reduceIte]
    rw [hlast, hparams, ← htext]
    split
    case isTrue hlt =>
      obtain ⟨kept, hkept⟩ := Int.eq_ofNat_of_zero_le
        (show 0 ≤ (d.outputText.length : Int) - Decoder.stopBufferLength params by omega)
      rw [hkept] at hlt ⊢
      have hslice : sliceTo d.outputText (kept : Int) = d.outputText.take kept := by
        unfold sliceTo
        rw [if_neg (by omega), Int.toNat_natCast]
      have hnew : text ++ (sliceTo d.outputText (kept : Int)).drop (text.length : Int).toNat =
          d.outputText.take kept := by
        rw [hslice, Int.toNat_natCast]
        obtain ⟨rest, hrest⟩ := hpre
        rw [← hrest, List.take_append, List.take_of_length_le (by omega), List.drop_left]
      rw [hnew]
      have hlength : (d.outputText.take kept).length = kept := by
        rw [List.length_take]
        omega
      refine ⟨⟨List.take_prefix _ _, ?_⟩, ?_⟩
      · intro decoder' hsome
        cases hsome
        rw [hlength]
      · intro decoder' hsome
        cases hsome
        refine ⟨rfl, Or.inr ?_⟩
        omega
    case isFalse =>
      rw [List.append_nil]
      refine ⟨⟨hpre, ?_⟩, ?_⟩
      · intro decoder' hsome
        cases hsome
        exact hlast
      · intro decoder' hsome
        cases hsome
        exact ⟨hparams, hsettled⟩

end IncrementalDetokenizer

end Yuan.Frontend
