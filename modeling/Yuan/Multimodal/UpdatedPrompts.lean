import Yuan.Multimodal.FoundPlaceholders

/-!
# Updated prompts

What `apply_token_matches` returns, and what `find_mm_placeholders` finds in it. Insertions may share a match. Where the
edits follow each other, the rest of the prompt is kept; those of replacements of token sequences always do.
-/

namespace Yuan.Multimodal

variable {encode : String → List Int} {prompt : List Int} {updates : MultiModalPromptUpdates}

/-- The matches that `_apply_matches` applies, in the order in which it does. -/
def appliedMatches (encode : String → List Int) (prompt : List Int) (updates : MultiModalPromptUpdates) :
    List Applied :=
  ((applyRun encode prompt updates).map ApplyState.applied).getD []

/-- The matches, and where their contents are placed in the output. -/
def placedMatches (applied : List Applied) : List (Applied × Nat) := applied.zip (Edit.places 0 0 (edits applied))

/-! ## Replacements of token sequences -/

theorem oneNonEmpty_true {items : List MatchToApply}
    (h : ∀ item ∈ oneNonEmpty true items, item.2.1.startIdx ≠ item.2.1.endIdx) : oneNonEmpty true items = [] := by
  induction items with
  | nil => rfl
  | cons item items ih =>
    rw [oneNonEmpty] at h ⊢
    split_ifs at h ⊢ with hempty hhas
    · exact absurd hempty (h item List.mem_cons_self)
    · exact ih h
    · exact absurd rfl hhas

/-- Without empty matches, only one is replaced at a time. -/
theorem oneNonEmpty_false {items : List MatchToApply} (hne : oneNonEmpty false items ≠ [])
    (h : ∀ item ∈ oneNonEmpty false items, item.2.1.startIdx ≠ item.2.1.endIdx) :
    ∃ item, oneNonEmpty false items = [item] := by
  cases items with
  | nil => exact absurd rfl hne
  | cons item items =>
    rw [oneNonEmpty] at h ⊢
    split_ifs at h ⊢ with hempty hhas
    · exact absurd hempty (h item List.mem_cons_self)
    · cases hhas
    · exact ⟨item, congrArg (List.cons item) (oneNonEmpty_true fun item' h' => h item' (List.mem_cons_of_mem _ h'))⟩

variable (updates) in
/-- All updates are replacements of token sequences. -/
def ReplacesTokens : Prop :=
  ∀ key updateIdx update, updateAt? updates key updateIdx = some update →
    update.mode = .replace ∧ ∃ s, update.target = .seq s

section

variable (hreplace : ReplacesTokens updates)
include hreplace

theorem findMatches_singleton {prevEndIdx : Nat} {current : MultiModalPromptUpdatesApplyResult} {mode : UpdateMode}
    {matchesToApply : List MatchToApply}
    (h : findMatches encode prompt updates prevEndIdx current = (some mode, matchesToApply)) :
    ∃ item, matchesToApply = [item] ∧ mode = .replace ∧ prevEndIdx ≤ item.2.1.startIdx := by
  obtain ⟨hne, -, hfound⟩ := findMatches_spec h
  have hitem : ∀ item ∈ matchesToApply, mode = .replace ∧ item.2.1.startIdx ≠ item.2.1.endIdx ∧
      prevEndIdx ≤ item.2.1.startIdx := by
    intro item hitem
    obtain ⟨-, update, hupdate, rfl, hmem⟩ := hfound item hitem
    obtain ⟨hmode, s, htarget⟩ := hreplace _ _ _ hupdate
    obtain ⟨hmatch, hscan⟩ := ResolvedPromptUpdate.iterTokenMatches_spec hmem
    rw [htarget] at hmatch
    obtain ⟨hids, hend, -⟩ := hmatch
    have hpos := List.length_pos_of_ne_nil hids
    exact ⟨hmode, by omega, by omega⟩
  obtain ⟨first, rest, rfl⟩ := List.exists_cons_of_ne_nil hne
  obtain ⟨rfl, -, hscan⟩ := hitem first List.mem_cons_self
  rw [findMatches, Prod.mk.injEq] at h
  obtain ⟨hmode, hlist⟩ := h
  rw [if_pos hmode] at hlist
  obtain ⟨item, hone⟩ := oneNonEmpty_false (hlist ▸ hne) fun item h => (hitem item (hlist ▸ h)).2.1
  have hfirst : first :: rest = [item] := hlist.symm.trans hone
  cases hfirst
  exact ⟨first, rfl, rfl, hscan⟩

theorem turnKeeps_ordered : TurnKeeps encode prompt updates fun s => Edit.Ordered (edits s.applied) := by
  intro s mode matchesToApply hs hordered h
  obtain ⟨-, happlied, -⟩ := turn_spec hs h
  obtain ⟨item, rfl, rfl, hscan⟩ := findMatches_singleton hreplace h
  rw [happlied, edits, List.map_append]
  refine List.pairwise_append.mpr ⟨hordered, List.pairwise_singleton _ _, fun e he e' he' => ?_⟩
  obtain ⟨a, ha, rfl⟩ := List.mem_map.mp he
  have heq : e' = (appliedItem encode updates .replace item).edit := List.mem_singleton.mp he'
  rw [heq, a.edit_stop]
  exact (hs.le_prevEndIdx hordered ha).trans hscan

/-- Replacements of token sequences follow each other. -/
theorem ordered_of_replacesTokens : Edit.Ordered (edits (appliedMatches encode prompt updates)) := by
  obtain ⟨s, hrun, -, hordered⟩ := applyRun_spec (turnKeeps_ordered hreplace) .nil
  rw [appliedMatches, hrun]
  exact hordered

end

/-! ## Finding the contents again -/

theorem map_zip_places {α β γ : Type} (f : α → β) (l : List α) (places : List γ) :
    (l.zip places).map (fun p => (p.2, f p.1)) = places.zip (l.map f) := by
  induction l generalizing places with
  | nil => rw [List.zip_nil_left, List.map_nil, List.map_nil, List.zip_nil_right]
  | cons a l ih =>
    cases places with
    | nil => rfl
    | cons place places => exact congrArg (List.cons (place, f a)) (ih places)

theorem length_places {α : Type} (es : List (Edit α)) (pos offset : Nat) :
    (Edit.places pos offset es).length = es.length := by
  induction es generalizing pos offset with
  | nil => rfl
  | cons e es ih => exact congrArg Nat.succ (ih _ _)

theorem map_fst_placedMatches (applied : List Applied) : (placedMatches applied).map Prod.fst = applied := by
  refine List.map_fst_zip ?_
  rw [length_places, edits, List.length_map]

/-- The items of a modality are placed in their order. -/
def InItemOrder (applied : List Applied) : Prop :=
  applied.Pairwise fun a b => a.key.1 = b.key.1 → a.key.2 < b.key.2

/-- Every item has been applied, no content is empty, and none stands in the output but where it was placed. -/
structure AllPlaced (encode : String → List Int) (updates : MultiModalPromptUpdates) (applied : List Applied)
    (out : List Int) (result : MultiModalPromptUpdatesApplyResult) : Prop where
  all : ∀ key us, (key, us) ∈ itemUpdates updates → (result key).isSome
  nonempty : ∀ key updateIdx update, updateAt? updates key updateIdx = some update →
    seq2tokens encode update.content.full ≠ []
  only : ∀ key updateIdx update place, updateAt? updates key updateIdx = some update →
    seq2tokens encode update.content.full <+: out.drop place →
    ∃ p ∈ placedMatches applied, p.1.key = key ∧ p.1.updateIdx = updateIdx ∧ p.2 = place

/-- For every item there is one placeholder, at the place of its content. -/
structure FoundAgain (updates : MultiModalPromptUpdates) (applied : List Applied)
    (found : Dict String (List PlaceholderFeaturesInfo)) : Prop where
  item : ∀ modality l, updates.get? modality = some l → l ≠ [] → ∃ infos, found.get? modality = some infos ∧
    infos.length = l.length ∧ ∀ i info, infos[i]? = some info →
      ∃ p ∈ placedMatches applied, p.1.key = (modality, i) ∧ info = infoOf updates p
  only : ∀ modality ∈ found.keys, ∃ l, updates.get? modality = some l ∧ l ≠ []

section

variable {s : ApplyState} (hs : s.Inv encode prompt updates)
  (hplaced : AllPlaced encode updates s.applied (Edit.applyAll prompt (edits s.applied)) s.outResult)
  (horder : InItemOrder s.applied)

include hs hplaced horder

theorem indices_eq_range {modality : String} {l : List (List ResolvedPromptUpdate)}
    (hl : updates.get? modality = some l) :
    (s.applied.filter fun a => a.key.1 = modality).map (fun a => a.key.2) = List.range l.length := by
  have hsorted : ((s.applied.filter fun a => a.key.1 = modality).map fun a => a.key.2).Pairwise (· < ·) := by
    refine List.pairwise_map.mpr ((List.Pairwise.filter _ horder).imp_of_mem fun {a b} ha hb hlt => ?_)
    have ha' := of_decide_eq_true (List.mem_filter.mp ha).2
    have hb' := of_decide_eq_true (List.mem_filter.mp hb).2
    exact hlt (ha'.trans hb'.symm)
  refine hsorted.eq_of_mem_iff List.pairwise_lt_range fun i => ?_
  rw [List.mem_range, List.mem_map]
  constructor
  · rintro ⟨a, ha, rfl⟩
    obtain ⟨hmem, hmodality⟩ := List.mem_filter.mp ha
    obtain ⟨update, hupdate, -⟩ := hs.ok a hmem
    obtain ⟨us, hus, -⟩ := updateAt?_eq_some.mp hupdate
    obtain ⟨l', hl', hget⟩ := mem_itemUpdates.mp hus
    rw [of_decide_eq_true hmodality, hl] at hl'
    cases hl'
    exact (List.getElem?_eq_some_iff.mp hget).1
  · intro hi
    have hus := List.getElem?_eq_getElem hi
    obtain ⟨updateIdx, hresult⟩ := Option.isSome_iff_exists.mp
      (hplaced.all (modality, i) _ (mem_itemUpdates.mpr ⟨l, hl, hus⟩))
    obtain ⟨a, ha, hkey, -⟩ := (hs.result _ _).mp hresult
    exact ⟨a, List.mem_filter.mpr ⟨ha, decide_eq_true (congrArg Prod.fst hkey)⟩, congrArg Prod.snd hkey⟩

theorem findable : Findable encode (Edit.applyAll prompt (edits s.applied)) updates (placedMatches s.applied) where
  ok p hp := by
    obtain ⟨update, hupdate, -, -, hcontent⟩ := hs.ok p.1 (List.of_mem_zip hp).1
    exact ⟨update, hupdate, hcontent⟩
  nonempty p hp := by
    obtain ⟨update, hupdate, -, -, hcontent⟩ := hs.ok p.1 (List.of_mem_zip hp).1
    rw [hcontent]
    exact hplaced.nonempty _ _ _ hupdate
  stands := by
    have hstands := Edit.applyAll_placed hs.within
    have hcontents : (edits s.applied).map Edit.content = s.applied.map Applied.content := by
      rw [edits, List.map_map]
      exact List.map_congr_left fun a _ => a.edit_content
    rwa [hcontents, ← map_zip_places] at hstands
  only := hplaced.only
  order modality l hl := by
    have hmap : ((placedMatches s.applied).filter fun p => p.1.key.1 = modality).map (fun p => p.1.key.2)
        = (((placedMatches s.applied).map Prod.fst).filter fun a => a.key.1 = modality).map fun a => a.key.2 := by
      rw [List.filter_map, List.map_map]
      rfl
    rw [hmap, map_fst_placedMatches]
    exact indices_eq_range hs hplaced horder hl

theorem iterPlaceholders_eq :
    iterPlaceholders encode (Edit.applyAll prompt (edits s.applied)) updates
      = (placedMatches s.applied).map (infoOf updates) := by
  have h := findable hs hplaced horder
  have h' : Findable encode (Edit.applyAll prompt (edits s.applied)) updates ([] ++ placedMatches s.applied) := h
  have hidx : ∀ m, (fun _ : String => 0) m = placedCount [] m := fun _ => rfl
  have hall := h'.allItemsFound_iff hidx
  unfold iterPlaceholders
  split_ifs with hnone
  · rw [hall.mp hnone, List.map_nil]
  · exact placeholdersFrom_eq h' (fun hnil => hnone (hall.mpr hnil)) hidx (fun _ _ => Nat.zero_le _) (by omega)

theorem foundAgain :
    FoundAgain updates s.applied (findMmPlaceholders encode (Edit.applyAll prompt (edits s.applied)) updates) := by
  have h := findable hs hplaced horder
  have hiter := iterPlaceholders_eq hs hplaced horder
  have hinfos : ∀ modality, ((placedMatches s.applied).map (infoOf updates)).filter
        (fun info => info.modality = modality)
      = ((placedMatches s.applied).filter fun p => p.1.key.1 = modality).map (infoOf updates) := fun modality => by
    rw [List.filter_map]
    rfl
  unfold findMmPlaceholders
  rw [hiter]
  refine ⟨fun modality l hl hne => ?_, fun modality hmem => ?_⟩
  · have hrange := h.order modality l hl
    have hlen := congrArg List.length hrange
    rw [List.length_map, List.length_range] at hlen
    obtain ⟨p, hp⟩ := List.exists_mem_of_length_pos (hlen ▸ List.length_pos_of_ne_nil hne)
    obtain ⟨hp, hmodality⟩ := List.mem_filter.mp hp
    have hkey : modality ∈ ((placedMatches s.applied).map (infoOf updates)).map PlaceholderFeaturesInfo.modality :=
      List.mem_map.mpr ⟨_, List.mem_map_of_mem hp, of_decide_eq_true hmodality⟩
    refine ⟨_, Dict.get?_groupBy_of_mem hkey, ?_, fun i info hinfo => ?_⟩
    · rw [List.map_id, hinfos, List.length_map, hlen]
    · rw [List.map_id, hinfos, List.getElem?_map, Option.map_eq_some_iff] at hinfo
      obtain ⟨q, hq, rfl⟩ := hinfo
      have hmem := List.mem_filter.mp (List.mem_of_getElem? hq)
      have hindex := congrArg (fun l => l[i]?) hrange
      rw [List.getElem?_map, hq, Option.map_some, eq_comm, List.getElem?_eq_some_iff] at hindex
      obtain ⟨_, hindex⟩ := hindex
      rw [List.getElem_range] at hindex
      exact ⟨q, hmem.1, Prod.ext (of_decide_eq_true hmem.2) hindex.symm, rfl⟩
  · obtain ⟨info, hinfo, rfl⟩ := List.mem_map.mp (Dict.mem_keys_groupBy.mp hmem)
    obtain ⟨p, hp, rfl⟩ := List.mem_map.mp hinfo
    obtain ⟨update, hupdate, -⟩ := h.ok p hp
    obtain ⟨us, hus, -⟩ := updateAt?_eq_some.mp hupdate
    obtain ⟨l, hl, hget⟩ := mem_itemUpdates.mp hus
    refine ⟨l, hl, ?_⟩
    rintro rfl
    cases hget

end

/-! ## Both functions -/

/-- The matches that are applied: those of the items with a result, one for each, at a match of the target of the update
that is the result. -/
structure AppliedExactly (encode : String → List Int) (prompt : List Int) (updates : MultiModalPromptUpdates)
    (applied : List Applied) (result : MultiModalPromptUpdatesApplyResult) : Prop where
  result : ∀ key updateIdx, result key = some updateIdx ↔ ∃ a ∈ applied, a.key = key ∧ a.updateIdx = updateIdx
  once : (applied.map Applied.key).Nodup
  ok : ∀ a ∈ applied, a.Ok encode prompt updates

/-- Two images that replace their placeholders, and an audio item at the end. -/
def imagesAndAudio : MultiModalPromptUpdates :=
  ⟨[("image", [[⟨.replace, .seq (.ids [5]), ⟨.ids [7, 7], none⟩⟩], [⟨.replace, .seq (.ids [5]), ⟨.ids [8], none⟩⟩]]),
    ("audio", [[⟨.insert, .index .atEnd, ⟨.ids [9, 9], none⟩⟩]])], by decide⟩

/-- The items with the index of their one update and its content. -/
def imagesAndAudioContents : List (ItemKey × Nat × List Int) :=
  [(("image", 0), 0, [7, 7]), (("image", 1), 0, [8]), (("audio", 0), 0, [9, 9])]

theorem mem_imagesAndAudioContents {key : ItemKey} {updateIdx : Nat} {update : ResolvedPromptUpdate}
    (h : updateAt? imagesAndAudio key updateIdx = some update) :
    (key, updateIdx, seq2tokens (fun _ => []) update.content.full) ∈ imagesAndAudioContents := by
  obtain ⟨us, hus, hget⟩ := updateAt?_eq_some.mp h
  have hitem : (key = ("image", 0) ∧ us = [⟨.replace, .seq (.ids [5]), ⟨.ids [7, 7], none⟩⟩]) ∨
      (key = ("image", 1) ∧ us = [⟨.replace, .seq (.ids [5]), ⟨.ids [8], none⟩⟩]) ∨
      (key = ("audio", 0) ∧ us = [⟨.insert, .index .atEnd, ⟨.ids [9, 9], none⟩⟩]) := by
    simpa [itemUpdates, imagesAndAudio] using hus
  rcases hitem with ⟨rfl, rfl⟩ | ⟨rfl, rfl⟩ | ⟨rfl, rfl⟩ <;>
  · cases updateIdx with
    | zero =>
      obtain rfl := Option.some.inj hget
      decide
    | succ _ => simp at hget

/-- Two images, each inserted after the beginning of the text. -/
def twoInsertions : MultiModalPromptUpdates :=
  ⟨[("image", [[⟨.insert, .seq (.ids [1]), ⟨.ids [7], none⟩⟩], [⟨.insert, .seq (.ids [1]), ⟨.ids [8], none⟩⟩]])],
    by decide⟩

end Yuan.Multimodal
