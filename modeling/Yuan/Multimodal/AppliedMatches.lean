import Yuan.Multimodal.PromptUpdates
import Mathlib.Data.List.Perm.Subperm

/-!
# What the matches do to the prompt

Every match that is applied is one of the target of an update of its item, every item has at most one, and the output is
the prompt with the edits of these matches, applied from left to right. The loop ends, since every turn applies a match.
-/

namespace Yuan.Multimodal

variable {encode : String → List Int} {prompt : List Int} {updates : MultiModalPromptUpdates}
  {found : PromptTargetMatch} {update : ResolvedPromptUpdate} {mode : UpdateMode} {matchesToApply : List MatchToApply}
  {s : ApplyState} {fuel startIdx : Nat}

/-! ## Matches of one update -/

variable (encode prompt) in
/-- A match of the target. -/
def IsMatch : UpdateTarget → PromptTargetMatch → Prop
  | .seq s, found =>
    seq2tokens encode s ≠ [] ∧ found.endIdx = found.startIdx + (seq2tokens encode s).length ∧
      found.endIdx ≤ prompt.length ∧ (prompt.take found.endIdx).drop found.startIdx = seq2tokens encode s
  | .index .atStart, found => found = ⟨0, 0⟩
  | .index (.afterPrefix seq), found =>
    seq2tokens encode seq <+: prompt ∧
      found = ⟨(seq2tokens encode seq).length, (seq2tokens encode seq).length⟩
  | .index .atEnd, found => found = ⟨prompt.length, prompt.length⟩

theorem IsMatch.bounds {target : UpdateTarget} (h : IsMatch encode prompt target found) :
    found.startIdx ≤ found.endIdx ∧ found.endIdx ≤ prompt.length := by
  match target, h with
  | .seq s, h => exact ⟨by rw [h.2.1]; exact Nat.le_add_right _ _, h.2.2.1⟩
  | .index .atStart, h =>
    cases h
    exact ⟨le_rfl, Nat.zero_le _⟩
  | .index (.afterPrefix seq), h =>
    obtain ⟨hinitial, rfl⟩ := h
    exact ⟨le_rfl, hinitial.length_le⟩
  | .index .atEnd, h =>
    cases h
    exact ⟨le_rfl, le_rfl⟩

theorem tokenMatchesFrom_spec {tokenIds matchIds : List Int}
    (h : found ∈ tokenMatchesFrom tokenIds matchIds fuel startIdx) :
    startIdx ≤ found.startIdx ∧ found.endIdx = found.startIdx + matchIds.length ∧ found.endIdx ≤ tokenIds.length ∧
      (tokenIds.take found.endIdx).drop found.startIdx = matchIds := by
  induction fuel generalizing startIdx with
  | zero => exact absurd h List.not_mem_nil
  | succ fuel ih =>
    rw [tokenMatchesFrom] at h
    split_ifs at h with hlt hmatch
    · rcases List.mem_cons.mp h with rfl | h
      · exact ⟨le_rfl, rfl, Nat.le_of_lt_succ hlt, hmatch⟩
      · obtain ⟨hstart, hrest⟩ := ih h
        exact ⟨(Nat.le_add_right _ _).trans hstart, hrest⟩
    · obtain ⟨hstart, hrest⟩ := ih h
      exact ⟨(Nat.le_succ _).trans hstart, hrest⟩
    · exact absurd h List.not_mem_nil

/-- The matches are of the target; those that are not empty are not in front of `start_idx`. -/
theorem ResolvedPromptUpdate.iterTokenMatches_spec (h : found ∈ update.iterTokenMatches encode prompt startIdx) :
    IsMatch encode prompt update.target found ∧ (startIdx ≤ found.startIdx ∨ found.startIdx = found.endIdx) := by
  unfold ResolvedPromptUpdate.iterTokenMatches at h
  match htarget : update.target with
  | .seq s =>
    rw [htarget] at h
    dsimp only [Multimodal.iterTokenMatches] at h
    split_ifs at h with hempty
    · exact absurd h List.not_mem_nil
    · obtain ⟨hstart, hend, hbound, hmatch⟩ := tokenMatchesFrom_spec h
      have hids : seq2tokens encode s ≠ [] := fun hnil => hempty (by rw [hnil]; rfl)
      exact ⟨⟨hids, hend, hbound, hmatch⟩, .inl hstart⟩
  | .index i =>
    rw [htarget] at h
    rw [Option.mem_toList, Option.map_eq_some_iff] at h
    obtain ⟨idx, hidx, rfl⟩ := h
    refine ⟨?_, .inr rfl⟩
    cases i with
    | atStart =>
      cases hidx
      rfl
    | afterPrefix seq =>
      dsimp only [PromptIndexTargets.getMatchIndex] at hidx
      split_ifs at hidx with hzero hprefix
      cases hidx
      exact ⟨List.prefix_iff_eq_take.mpr hprefix.symm, rfl⟩
    | atEnd =>
      cases hidx
      rfl

/-! ## `_find_matches` -/

theorem firstValid_eq_some {mode : Option UpdateMode} {updateMode : UpdateMode} {matches' : List PromptTargetMatch}
    (h : firstValid mode updateMode matches' = some found) :
    found ∈ matches' ∧ (mode = none ∨ mode = some updateMode) := by
  induction matches' with
  | nil => cases h
  | cons first rest ih =>
    cases mode with
    | none =>
      cases h
      exact ⟨List.mem_cons_self, .inl rfl⟩
    | some m =>
      simp only [firstValid] at h
      split_ifs at h with hm
      · exact ⟨List.mem_cons_of_mem _ (ih h).1, (ih h).2⟩
      · cases h
        exact ⟨List.mem_cons_self, .inr (congrArg some (not_not.mp hm))⟩

variable (encode prompt) in
/-- What is found for an item at a scan position: a match of one of its updates. -/
def FoundAt (prevEndIdx : Nat) (itemUpdates : List ResolvedPromptUpdate) (mode : UpdateMode)
    (found : PromptTargetMatch × Nat) : Prop :=
  ∃ update, itemUpdates[found.2]? = some update ∧ update.mode = mode ∧
    found.1 ∈ update.iterTokenMatches encode prompt prevEndIdx

theorem findItemMatch_spec {prevEndIdx : Nat} {mode : Option UpdateMode} {skipped rest : List ResolvedPromptUpdate}
    {mode' : Option UpdateMode} {found : Option (PromptTargetMatch × Nat)}
    (h : findItemMatch encode prompt prevEndIdx mode skipped.length rest = (mode', found)) :
    found = none ∧ mode' = mode ∨ ∃ m f, mode' = some m ∧ (mode = none ∨ mode = some m) ∧ found = some f ∧
        FoundAt encode prompt prevEndIdx (skipped ++ rest) m f := by
  induction rest generalizing skipped with
  | nil =>
    cases h
    exact .inl ⟨rfl, rfl⟩
  | cons update rest ih =>
    rw [findItemMatch] at h
    cases hfirst : firstValid mode update.mode (update.iterTokenMatches encode prompt prevEndIdx) with
    | none =>
      rw [hfirst] at h
      have hlen : skipped.length + 1 = (skipped ++ [update]).length := by simp
      rw [hlen] at h
      have hrest := ih h
      rwa [List.append_assoc] at hrest
    | some first =>
      rw [hfirst] at h
      cases h
      obtain ⟨hmem, hmode⟩ := firstValid_eq_some hfirst
      refine .inr ⟨update.mode, _, rfl, hmode, rfl, update, ?_, rfl, hmem⟩
      rw [List.getElem?_append_right le_rfl, Nat.sub_self]
      rfl

/-- The items of the matches are items without a result, each once, and all matches share the mode. -/
structure Collected (encode : String → List Int) (prompt : List Int) (prevEndIdx : Nat)
    (current : MultiModalPromptUpdatesApplyResult) (items : List (ItemKey × List ResolvedPromptUpdate))
    (mode : Option UpdateMode) (matchesToApply : List MatchToApply) : Prop where
  keys : (matchesToApply.map Prod.fst).Sublist (items.map Prod.fst)
  found : ∀ item ∈ matchesToApply, current item.1 = none ∧ ∃ m itemUpdates, mode = some m ∧
    (item.1, itemUpdates) ∈ items ∧ FoundAt encode prompt prevEndIdx itemUpdates m item.2

variable (encode prompt) in
theorem collectMatches_spec (prevEndIdx : Nat) (current : MultiModalPromptUpdatesApplyResult)
    (mode : Option UpdateMode) (items : List (ItemKey × List ResolvedPromptUpdate)) :
    Collected encode prompt prevEndIdx current items (collectMatches encode prompt prevEndIdx current mode items).1
        (collectMatches encode prompt prevEndIdx current mode items).2 ∧
      (∀ m, mode = some m → (collectMatches encode prompt prevEndIdx current mode items).1 = some m) ∧
      (mode = none → (collectMatches encode prompt prevEndIdx current mode items).2 = [] →
        (collectMatches encode prompt prevEndIdx current mode items).1 = none) := by
  induction items generalizing mode with
  | nil => exact ⟨⟨.slnil, fun _ h => absurd h List.not_mem_nil⟩, fun m h => h, fun h _ => h⟩
  | cons first items ih =>
    obtain ⟨key, itemUpdates⟩ := first
    have hskip : ∀ {mode' l}, Collected encode prompt prevEndIdx current items mode' l →
        Collected encode prompt prevEndIdx current ((key, itemUpdates) :: items) mode' l := fun h =>
      ⟨h.keys.cons _, fun item hitem => by
        obtain ⟨hnone, m, us, hm, hmem, hfound⟩ := h.found item hitem
        exact ⟨hnone, m, us, hm, List.mem_cons_of_mem _ hmem, hfound⟩⟩
    rw [collectMatches]
    by_cases hcurrent : (current key).isSome
    · rw [if_pos hcurrent]
      exact ⟨hskip (ih mode).1, (ih mode).2⟩
    · rw [if_neg hcurrent]
      have hfirst : findItemMatch encode prompt prevEndIdx mode ([] : List ResolvedPromptUpdate).length itemUpdates
        = findItemMatch encode prompt prevEndIdx mode 0 itemUpdates := rfl
      rcases hitem : findItemMatch encode prompt prevEndIdx mode 0 itemUpdates with ⟨mode', found⟩
      rcases findItemMatch_spec (hfirst.trans hitem) with ⟨rfl, rfl⟩ | ⟨m, f, rfl, hmode, rfl, hfound⟩
      · exact ⟨hskip (ih mode').1, (ih mode').2⟩
      · have hshared := (ih (some m)).2.1 m rfl
        dsimp only
        refine ⟨⟨(ih (some m)).1.keys.cons_cons key, fun item hmem => ?_⟩, fun m' hm' => ?_, fun _ h => by cases h⟩
        · rcases List.mem_cons.mp hmem with rfl | hmem
          · exact ⟨Option.not_isSome_iff_eq_none.mp hcurrent, m, itemUpdates, hshared, List.mem_cons_self, hfound⟩
          · exact (hskip (ih (some m)).1).found item hmem
        · rcases hmode with rfl | rfl
          · cases hm'
          · exact hshared.trans hm'

theorem oneNonEmpty_sublist (hasNonEmptyMatches : Bool) (items : List MatchToApply) :
    (oneNonEmpty hasNonEmptyMatches items).Sublist items := by
  induction items generalizing hasNonEmptyMatches with
  | nil => exact .slnil
  | cons item items ih =>
    rw [oneNonEmpty]
    split_ifs with hempty hhas
    · exact (ih _).cons_cons item
    · exact (ih _).cons item
    · exact (ih _).cons_cons item

theorem oneNonEmpty_ne_nil {items : List MatchToApply} (h : items ≠ []) : oneNonEmpty false items ≠ [] := by
  obtain ⟨item, rest, rfl⟩ := List.exists_cons_of_ne_nil h
  rw [oneNonEmpty]
  split_ifs with hempty hhas
  · exact List.cons_ne_nil _ _
  · cases hhas
  · exact List.cons_ne_nil _ _

theorem nodup_itemKeys (updates : MultiModalPromptUpdates) : ((itemUpdates updates).map Prod.fst).Nodup := by
  unfold itemUpdates
  rw [List.map_flatMap]
  refine List.nodup_flatMap.mpr ⟨fun e _ => ?_, ?_⟩
  · rw [List.map_map]
    have hkeys : (e.2.zipIdx.map (Prod.fst ∘ fun p => ((e.1, p.2), p.1)))
        = (e.2.zipIdx.map Prod.snd).map fun i => (e.1, i) := by
      rw [List.map_map]
      rfl
    rw [hkeys, List.zipIdx_map_snd]
    exact List.Nodup.map (fun i j hij => (Prod.mk.inj hij).2) List.nodup_range'
  · have hnodup := List.pairwise_map.mp updates.nodup
    refine hnodup.imp fun {e e'} hne key hkey hkey' => ?_
    simp only [List.map_map, List.mem_map] at hkey hkey'
    obtain ⟨p, -, rfl⟩ := hkey
    obtain ⟨p', -, hp'⟩ := hkey'
    exact hne (Prod.mk.inj hp').1.symm

theorem mem_itemUpdates {key : ItemKey} {us : List ResolvedPromptUpdate} :
    (key, us) ∈ itemUpdates updates ↔ ∃ l, updates.get? key.1 = some l ∧ l[key.2]? = some us := by
  unfold itemUpdates
  simp only [List.mem_flatMap, List.mem_map, Prod.mk.injEq]
  constructor
  · rintro ⟨e, he, p, hp, rfl, rfl⟩
    exact ⟨e.2, Dict.get?_eq_some.mpr he, List.mem_zipIdx_iff_getElem?.mp hp⟩
  · rintro ⟨l, hl, hus⟩
    exact ⟨(key.1, l), Dict.get?_eq_some.mp hl, (us, key.2), List.mem_zipIdx_iff_getElem?.mpr hus, rfl, rfl⟩

theorem updateAt?_eq_some {key : ItemKey} {updateIdx : Nat} :
    updateAt? updates key updateIdx = some update ↔
      ∃ us, (key, us) ∈ itemUpdates updates ∧ us[updateIdx]? = some update := by
  simp only [updateAt?, Option.bind_eq_bind, Option.bind_eq_some_iff, mem_itemUpdates]
  constructor
  · rintro ⟨l, hl, us, hus, hupdate⟩
    exact ⟨us, ⟨l, hl, hus⟩, hupdate⟩
  · rintro ⟨us, ⟨l, hl, hus⟩, hupdate⟩
    exact ⟨l, hl, us, hus, hupdate⟩

/-- What `_find_matches` returns, if a mode: at least one match, of items without a result, each once. -/
theorem findMatches_spec {prevEndIdx : Nat} {current : MultiModalPromptUpdatesApplyResult}
    (h : findMatches encode prompt updates prevEndIdx current = (some mode, matchesToApply)) :
    matchesToApply ≠ [] ∧ (matchesToApply.map Prod.fst).Nodup ∧ ∀ item ∈ matchesToApply, current item.1 = none ∧
        ∃ update, updateAt? updates item.1 item.2.2 = some update ∧ update.mode = mode ∧
          item.2.1 ∈ update.iterTokenMatches encode prompt prevEndIdx := by
  obtain ⟨hcollected, -, hnone⟩ :=
    collectMatches_spec encode prompt prevEndIdx current none (itemUpdates updates)
  rw [findMatches, Prod.mk.injEq] at h
  obtain ⟨hmode, rfl⟩ := h
  generalize hsorted : ((collectMatches encode prompt prevEndIdx current none (itemUpdates updates)).2.insertionSort
    fun a b => a.2.1.le b.2.1) = sorted
  have hperm : sorted.Perm (collectMatches encode prompt prevEndIdx current none (itemUpdates updates)).2 := by
    rw [← hsorted]
    exact List.perm_insertionSort _ _
  have hne : sorted ≠ [] := by
    rintro rfl
    have hnil := hnone rfl (List.nil_perm.mp hperm)
    rw [hnil] at hmode
    cases hmode
  have hnodup : (sorted.map Prod.fst).Nodup :=
    (hperm.map Prod.fst).nodup_iff.mpr (hcollected.keys.nodup (nodup_itemKeys updates))
  have hfound : ∀ item ∈ sorted, current item.1 = none ∧
      ∃ update, updateAt? updates item.1 item.2.2 = some update ∧ update.mode = mode ∧
        item.2.1 ∈ update.iterTokenMatches encode prompt prevEndIdx := by
    intro item hitem
    obtain ⟨hcurrent, m, us, hm, hus, update, hupdate, hmode', hmem⟩ := hcollected.found item (hperm.mem_iff.mp hitem)
    have heq : m = mode := Option.some.inj (hm.symm.trans hmode)
    exact ⟨hcurrent, update, updateAt?_eq_some.mpr ⟨us, hus, hupdate⟩, hmode'.trans heq, hmem⟩
  split_ifs with hreplace
  · have hsub := oneNonEmpty_sublist false sorted
    exact ⟨oneNonEmpty_ne_nil hne, (hsub.map Prod.fst).nodup hnodup, fun item hitem => hfound item (hsub.subset hitem)⟩
  · exact ⟨hne, hnodup, hfound⟩

/-! ## Runs -/

variable (encode prompt updates) in
/-- A match that is applied is one of the target of an update of its item, and its content is that of the update. -/
def Applied.Ok (a : Applied) : Prop :=
  ∃ update, updateAt? updates a.key a.updateIdx = some update ∧ a.mode = update.mode ∧
    IsMatch encode prompt update.target a.found ∧ a.content = seq2tokens encode update.content.full

/-- Two matches, in the order in which they are applied, that do not overlap; two insertions may share a match. -/
def Applied.Apart (a b : Applied) : Prop :=
  a.found.endIdx ≤ b.found.startIdx ∨ a.mode = .insert ∧ b.mode = .insert

/-- The edits of the matches. -/
def edits (applied : List Applied) : List (Edit Int) := applied.map Applied.edit

@[simp] theorem Applied.edit_stop (a : Applied) : a.edit.stop = a.found.endIdx := by
  unfold Applied.edit
  cases a.mode <;> rfl

@[simp] theorem Applied.edit_content (a : Applied) : a.edit.content = a.content := by
  unfold Applied.edit
  cases a.mode <;> rfl

theorem Applied.Ok.within {a : Applied} (h : a.Ok encode prompt updates) :
    a.edit.start ≤ a.edit.stop ∧ a.edit.stop ≤ prompt.length := by
  obtain ⟨update, -, -, hmatch, -⟩ := h
  have hbounds := hmatch.bounds
  refine ⟨?_, by rw [a.edit_stop]; exact hbounds.2⟩
  unfold Applied.edit
  cases a.mode with
  | insert => exact le_rfl
  | replace => exact hbounds.1

variable (encode prompt updates) in
/-- What holds whenever the loop looks for matches. -/
structure ApplyState.Inv (s : ApplyState) : Prop where
  written : (edits s.applied).foldl (Edit.step prompt) (0, []) = (s.prevEndIdx, s.outSeqs.flatten)
  ok : ∀ a ∈ s.applied, a.Ok encode prompt updates
  result : ∀ key updateIdx, s.outResult key = some updateIdx ↔ ∃ a ∈ s.applied, a.key = key ∧ a.updateIdx = updateIdx
  nodup : (s.applied.map Applied.key).Nodup

theorem ApplyState.Inv.within (hs : s.Inv encode prompt updates) : Edit.Within prompt.length (edits s.applied) := by
  intro e he
  obtain ⟨a, ha, rfl⟩ := List.mem_map.mp he
  exact (hs.ok a ha).within

/-- At most as many matches are applied as there are items. -/
theorem ApplyState.Inv.length_le (hs : s.Inv encode prompt updates) :
    s.applied.length ≤ (itemUpdates updates).length := by
  have hsubset : s.applied.map Applied.key ⊆ (itemUpdates updates).map Prod.fst := by
    intro key hkey
    obtain ⟨a, ha, rfl⟩ := List.mem_map.mp hkey
    obtain ⟨update, hupdate, -⟩ := hs.ok a ha
    obtain ⟨us, hus, -⟩ := updateAt?_eq_some.mp hupdate
    exact List.mem_map_of_mem hus
  have hlen := (List.Nodup.subperm hs.nodup hsubset).length_le
  rwa [List.length_map, List.length_map] at hlen

theorem ApplyState.Inv.initial : ApplyState.Inv encode prompt updates {} where
  written := rfl
  ok _ h := absurd h List.not_mem_nil
  result _ _ := ⟨fun h => (nomatch h), fun ⟨_, h, _⟩ => absurd h List.not_mem_nil⟩
  nodup := List.nodup_nil

variable (encode updates) in
/-- The match of an item, as it is applied. -/
def appliedItem (mode : UpdateMode) (item : MatchToApply) : Applied :=
  ⟨item.1, item.2.2, mode, item.2.1,
    ((updateAt? updates item.1 item.2.2).map fun update => seq2tokens encode update.content.full).getD []⟩

theorem applyMatch_eq {item : MatchToApply} (h : updateAt? updates item.1 item.2.2 = some update) :
    s.applyMatch encode prompt updates mode item =
      { prevEndIdx := item.2.1.endIdx
        outSeqs := s.outSeqs ++ [(prompt.take (appliedItem encode updates mode item).edit.start).drop s.prevEndIdx,
          (appliedItem encode updates mode item).content]
        outResult := Function.update s.outResult item.1 (some item.2.2)
        applied := s.applied ++ [appliedItem encode updates mode item] } := by
  unfold ApplyState.applyMatch appliedItem
  rw [h]
  cases mode <;> rfl

section

variable (hs : s.Inv encode prompt updates)
include hs

theorem ApplyState.Inv.applyMatch {item : MatchToApply} (hcurrent : s.outResult item.1 = none)
    (hok : (appliedItem encode updates mode item).Ok encode prompt updates) :
    (s.applyMatch encode prompt updates mode item).Inv encode prompt updates := by
  have hupdate := hok
  obtain ⟨update, hupdate, -⟩ := hupdate
  rw [applyMatch_eq hupdate]
  have hfresh : item.1 ∉ s.applied.map Applied.key := by
    intro hmem
    obtain ⟨a, ha, hkey⟩ := List.mem_map.mp hmem
    have hsome := (hs.result item.1 a.updateIdx).mpr ⟨a, ha, hkey, rfl⟩
    rw [hcurrent] at hsome
    cases hsome
  refine ⟨?_, fun a ha => ?_, fun key updateIdx => ?_, ?_⟩
  · dsimp only [edits]
    rw [List.map_append, List.foldl_append]
    have hwritten := hs.written
    rw [edits] at hwritten
    rw [hwritten]
    simp [Edit.step, appliedItem]
  · rcases List.mem_append.mp ha with ha | ha
    · exact hs.ok a ha
    · rw [List.mem_singleton.mp ha]
      exact hok
  · dsimp only
    by_cases hkey : key = item.1
    · subst hkey
      rw [Function.update_self, Option.some.injEq]
      constructor
      · rintro rfl
        exact ⟨_, List.mem_append_right _ List.mem_cons_self, rfl, rfl⟩
      · rintro ⟨a, ha, hkey, rfl⟩
        rcases List.mem_append.mp ha with ha | ha
        · exact absurd (List.mem_map.mpr ⟨a, ha, hkey⟩) hfresh
        · rw [List.mem_singleton.mp ha]
          rfl
    · rw [Function.update_of_ne hkey, hs.result]
      constructor
      · rintro ⟨a, ha, h⟩
        exact ⟨a, List.mem_append_left _ ha, h⟩
      · rintro ⟨a, ha, h⟩
        rcases List.mem_append.mp ha with ha | ha
        · exact ⟨a, ha, h⟩
        · rw [List.mem_singleton.mp ha] at h
          exact absurd h.1.symm hkey
  · dsimp only
    rw [List.map_append, List.map_singleton, ← List.concat_eq_append]
    exact hs.nodup.concat hfresh

theorem foldl_applyMatch {items : List MatchToApply} (hnodup : (items.map Prod.fst).Nodup)
    (hitems : ∀ item ∈ items, s.outResult item.1 = none ∧
      (appliedItem encode updates mode item).Ok encode prompt updates) :
    (items.foldl (ApplyState.applyMatch encode prompt updates mode) s).Inv encode prompt updates ∧
      (items.foldl (ApplyState.applyMatch encode prompt updates mode) s).applied
        = s.applied ++ items.map (appliedItem encode updates mode) := by
  induction items generalizing s with
  | nil => exact ⟨hs, (List.append_nil _).symm⟩
  | cons item items ih =>
    obtain ⟨hfresh, hnodup⟩ := List.nodup_cons.mp hnodup
    obtain ⟨hcurrent, hok⟩ := hitems item List.mem_cons_self
    have hupdate := hok
    obtain ⟨update, hupdate, -⟩ := hupdate
    have hstep := hs.applyMatch hcurrent hok
    have hrest : ∀ item' ∈ items, (s.applyMatch encode prompt updates mode item).outResult item'.1 = none ∧
        (appliedItem encode updates mode item').Ok encode prompt updates := by
      intro item' hitem'
      obtain ⟨hcurrent', hok'⟩ := hitems item' (List.mem_cons_of_mem _ hitem')
      refine ⟨?_, hok'⟩
      rw [applyMatch_eq hupdate]
      dsimp only
      rw [Function.update_of_ne, hcurrent']
      rintro heq
      exact hfresh (heq ▸ List.mem_map_of_mem hitem')
    obtain ⟨hinv, happlied⟩ := ih hstep hnodup hrest
    refine ⟨hinv, happlied.trans ?_⟩
    rw [applyMatch_eq hupdate, List.map_cons, List.append_assoc, List.singleton_append]

/-- One turn of the outer loop: the matches are applied as they were found. -/
theorem turn_spec (h : findMatches encode prompt updates s.prevEndIdx s.outResult = (some mode, matchesToApply)) :
    (matchesToApply.foldl (ApplyState.applyMatch encode prompt updates mode) s).Inv encode prompt updates ∧
      (matchesToApply.foldl (ApplyState.applyMatch encode prompt updates mode) s).applied
        = s.applied ++ matchesToApply.map (appliedItem encode updates mode) ∧
      ∀ item ∈ matchesToApply, (appliedItem encode updates mode item).Ok encode prompt updates ∧
        (s.prevEndIdx ≤ item.2.1.startIdx ∨ item.2.1.startIdx = item.2.1.endIdx) := by
  obtain ⟨-, hnodup, hfound⟩ := findMatches_spec h
  have hok : ∀ item ∈ matchesToApply, (appliedItem encode updates mode item).Ok encode prompt updates ∧
      (s.prevEndIdx ≤ item.2.1.startIdx ∨ item.2.1.startIdx = item.2.1.endIdx) := by
    intro item hitem
    obtain ⟨-, update, hupdate, rfl, hmem⟩ := hfound item hitem
    obtain ⟨hmatch, hscan⟩ := ResolvedPromptUpdate.iterTokenMatches_spec hmem
    refine ⟨⟨update, hupdate, rfl, hmatch, ?_⟩, hscan⟩
    rw [appliedItem, hupdate]
    rfl
  obtain ⟨hinv, happlied⟩ := foldl_applyMatch hs hnodup fun item hitem => ⟨(hfound item hitem).1, (hok item hitem).1⟩
  exact ⟨hinv, happlied, hok⟩

end

theorem turn_length {s' : ApplyState}
    (happlied : s'.applied = s.applied ++ matchesToApply.map (appliedItem encode updates mode))
    (h : findMatches encode prompt updates s.prevEndIdx s.outResult = (some mode, matchesToApply)) :
    s.applied.length < s'.applied.length := by
  rw [happlied, List.length_append, List.length_map]
  exact Nat.lt_add_of_pos_right (List.length_pos_of_ne_nil (findMatches_spec h).1)

/-- Where the ranges follow each other, the loop is behind them. -/
theorem ApplyState.Inv.le_prevEndIdx (hs : s.Inv encode prompt updates) (hordered : Edit.Ordered (edits s.applied))
    {a : Applied} (ha : a ∈ s.applied) : a.found.endIdx ≤ s.prevEndIdx := by
  have hreached : a.edit.stop ≤ ((edits s.applied).foldl (Edit.step prompt) (0, [])).1 :=
    Edit.stop_le_foldl hs.within hordered (0, []) a.edit (List.mem_map_of_mem ha)
  rwa [hs.written, a.edit_stop] at hreached

variable (encode prompt updates) in
/-- One turn keeps a property of the state. -/
def TurnKeeps (P : ApplyState → Prop) : Prop :=
  ∀ s mode matchesToApply, s.Inv encode prompt updates → P s →
    findMatches encode prompt updates s.prevEndIdx s.outResult = (some mode, matchesToApply) →
    P (matchesToApply.foldl (ApplyState.applyMatch encode prompt updates mode) s)

/-- When the ranges follow each other, the matches do. -/
def Follows (s : ApplyState) : Prop := Edit.Ordered (edits s.applied) → s.applied.Pairwise Applied.Apart

theorem turnKeeps_follows : TurnKeeps encode prompt updates Follows := by
  intro s mode matchesToApply hs hfollows h
  obtain ⟨-, happlied, hok⟩ := turn_spec hs h
  intro hordered
  rw [happlied, edits, List.map_append] at hordered
  rw [happlied]
  obtain ⟨hbefore, hnow, hcross⟩ := List.pairwise_append.mp hordered
  refine List.pairwise_append.mpr ⟨hfollows hbefore, ?_, fun a ha b hb => ?_⟩
  · refine List.pairwise_map.mpr ((List.pairwise_map.mp (List.pairwise_map.mp hnow)).imp fun {item item'} hle => ?_)
    cases mode with
    | insert => exact .inr ⟨rfl, rfl⟩
    | replace => exact .inl hle
  · have hle := hcross a.edit (List.mem_map_of_mem ha) b.edit (List.mem_map_of_mem hb)
    rw [a.edit_stop] at hle
    obtain ⟨item, hitem, rfl⟩ := List.mem_map.mp hb
    refine .inl ?_
    cases mode with
    | replace => exact hle
    | insert =>
      rcases (hok item hitem).2 with hscan | hempty
      · exact (hs.le_prevEndIdx hbefore ha).trans hscan
      · exact hle.trans_eq hempty.symm

/-- The loop ends, with what every turn keeps. -/
theorem applyLoop_spec {P : ApplyState → Prop} (hP : TurnKeeps encode prompt updates P)
    (hs : s.Inv encode prompt updates) (hPs : P s) (hfuel : (itemUpdates updates).length < fuel + s.applied.length) :
    ∃ s', applyLoop encode prompt updates fuel s = some s' ∧ s'.Inv encode prompt updates ∧ P s' := by
  induction fuel generalizing s with
  | zero =>
    have hlen := hs.length_le
    omega
  | succ fuel ih =>
    rw [applyLoop]
    rcases hfind : findMatches encode prompt updates s.prevEndIdx s.outResult with ⟨_ | mode, matchesToApply⟩
    · exact ⟨s, rfl, hs, hPs⟩
    · obtain ⟨hinv, happlied, hok⟩ := turn_spec hs hfind
      have hlen := turn_length happlied hfind
      have hP' := hP s mode matchesToApply hs hPs hfind
      dsimp only
      split_ifs with hall
      · exact ⟨_, rfl, hinv, hP'⟩
      · exact ih hinv hP' (by omega)

theorem applyRun_spec {P : ApplyState → Prop} (hP : TurnKeeps encode prompt updates P) (hinitial : P {}) :
    ∃ s, applyRun encode prompt updates = some s ∧ s.Inv encode prompt updates ∧ P s := by
  unfold applyRun
  split_ifs with hall
  · exact ⟨_, rfl, .initial, hinitial⟩
  · exact applyLoop_spec hP .initial hinitial (by simp)

theorem ApplyState.Inv.out_eq (hs : s.Inv encode prompt updates) :
    (s.outSeqs ++ [prompt.drop s.prevEndIdx]).flatten = Edit.applyAll prompt (edits s.applied) := by
  rw [Edit.applyAll, hs.written, List.flatten_append, List.flatten_singleton]

end Yuan.Multimodal
