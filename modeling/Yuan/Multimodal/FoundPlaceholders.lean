import Yuan.Multimodal.AppliedMatches

/-!
# What is found in the output

`_iter_placeholders` looks from left to right for the next item of each modality. If every content stands only where it
was placed, and the items of each modality were placed in their order, it finds every item at its place.
-/

namespace Yuan.Multimodal

variable {encode : String → List Int} {out : List Int} {updates : MultiModalPromptUpdates} {startIdx : Nat}
  {us : List ResolvedPromptUpdate} {idx : String → Nat} {entries : List (String × List (List ResolvedPromptUpdate))}
  {info : PlaceholderFeaturesInfo} {q : Applied × Nat}

/-- What is found for a match that was applied, at its place. -/
def infoOf (updates : MultiModalPromptUpdates) (p : Applied × Nat) : PlaceholderFeaturesInfo :=
  ⟨p.1.key.1, p.1.key.2, p.2, p.1.content,
    (updateAt? updates p.1.key p.1.updateIdx).bind fun update =>
      update.content.isEmbed.map fun isEmbed => isEmbed update.content.full⟩

/-! ## One position -/

/-- The test of `_iter_placeholders` for a content at a position. -/
theorem slice_eq_iff {content : List Int} :
    ¬ (content.length = 0 ∨ out.length < startIdx + content.length) ∧
        (out.take (startIdx + content.length)).drop startIdx = content ↔
      content ≠ [] ∧ content <+: out.drop startIdx := by
  have hslice : (out.take (startIdx + content.length)).drop startIdx = (out.drop startIdx).take content.length := by
    rw [List.drop_take, Nat.add_sub_cancel_left]
  rw [hslice, not_or, List.length_eq_zero_iff]
  constructor
  · rintro ⟨⟨hne, -⟩, htake⟩
    exact ⟨hne, List.prefix_iff_eq_take.mpr htake.symm⟩
  · rintro ⟨hne, hstands⟩
    have hlen := hstands.length_le
    have hpos := List.length_pos_of_ne_nil hne
    rw [List.length_drop] at hlen
    exact ⟨⟨hne, by omega⟩, (List.prefix_iff_eq_take.mp hstands).symm⟩

theorem findContent_eq_some {content : PromptUpdateDetails} (h : findContent encode out startIdx us = some content) :
    ∃ (updateIdx : Nat) (update : ResolvedPromptUpdate), us[updateIdx]? = some update ∧ update.content = content ∧
      seq2tokens encode content.full <+: out.drop startIdx := by
  induction us with
  | nil => cases h
  | cons update us ih =>
    rw [findContent] at h
    split_ifs at h with hskip hstands
    · obtain ⟨updateIdx, hupdate⟩ := ih h
      exact ⟨updateIdx + 1, hupdate⟩
    · cases h
      exact ⟨0, update, rfl, rfl, (slice_eq_iff.mp ⟨hskip, hstands⟩).2⟩
    · obtain ⟨updateIdx, hupdate⟩ := ih h
      exact ⟨updateIdx + 1, hupdate⟩

theorem findContent_ne_none {update : ResolvedPromptUpdate} (hmem : update ∈ us)
    (hne : seq2tokens encode update.content.full ≠ [])
    (hstands : seq2tokens encode update.content.full <+: out.drop startIdx) :
    findContent encode out startIdx us ≠ none := by
  induction us with
  | nil => exact absurd hmem List.not_mem_nil
  | cons first us ih =>
    rw [findContent]
    split_ifs with hskip hfirst
    · rcases List.mem_cons.mp hmem with rfl | hmem
      · exact absurd hskip (slice_eq_iff.mpr ⟨hne, hstands⟩).1
      · exact ih hmem
    · exact Option.some_ne_none _
    · rcases List.mem_cons.mp hmem with rfl | hmem
      · exact absurd (slice_eq_iff.mpr ⟨hne, hstands⟩).2 hfirst
      · exact ih hmem

/-- The information is that of an update of the next item of a modality. -/
def NextItem (encode : String → List Int) (out : List Int) (startIdx : Nat) (idx : String → Nat)
    (entries : List (String × List (List ResolvedPromptUpdate))) (info : PlaceholderFeaturesInfo) : Prop :=
  ∃ (modality : String) (l : List (List ResolvedPromptUpdate)) (us : List ResolvedPromptUpdate) (updateIdx : Nat)
    (update : ResolvedPromptUpdate), (modality, l) ∈ entries ∧ l[idx modality]? = some us ∧
      us[updateIdx]? = some update ∧ seq2tokens encode update.content.full <+: out.drop startIdx ∧
      info = ⟨modality, idx modality, startIdx, seq2tokens encode update.content.full,
        update.content.isEmbed.map fun isEmbed => isEmbed update.content.full⟩

theorem NextItem.cons (h : NextItem encode out startIdx idx entries info)
    (entry : String × List (List ResolvedPromptUpdate)) : NextItem encode out startIdx idx (entry :: entries) info := by
  obtain ⟨modality, l, us, updateIdx, update, hmem, hfound⟩ := h
  exact ⟨modality, l, us, updateIdx, update, List.mem_cons_of_mem entry hmem, hfound⟩

theorem findItem_eq_some (h : findItem encode out startIdx idx entries = some info) :
    NextItem encode out startIdx idx entries info := by
  induction entries with
  | nil => cases h
  | cons entry entries ih =>
    obtain ⟨modality, l⟩ := entry
    rw [findItem] at h
    cases hus : l[idx modality]? with
    | none =>
      rw [hus] at h
      exact (ih h).cons _
    | some us =>
      rw [hus] at h
      cases hcontent : findContent encode out startIdx us with
      | none =>
        dsimp only at h
        rw [hcontent] at h
        exact (ih h).cons _
      | some content =>
        dsimp only at h
        rw [hcontent] at h
        obtain ⟨updateIdx, update, hupdate, rfl, hstands⟩ := findContent_eq_some hcontent
        cases h
        exact ⟨modality, l, us, updateIdx, update, List.mem_cons_self, hus, hupdate, hstands, rfl⟩

theorem findItem_ne_none {modality : String} {l : List (List ResolvedPromptUpdate)} {update : ResolvedPromptUpdate}
    (hentry : (modality, l) ∈ entries) (hus : l[idx modality]? = some us) (hmem : update ∈ us)
    (hne : seq2tokens encode update.content.full ≠ [])
    (hstands : seq2tokens encode update.content.full <+: out.drop startIdx) :
    findItem encode out startIdx idx entries ≠ none := by
  induction entries with
  | nil => exact absurd hentry List.not_mem_nil
  | cons entry entries ih =>
    obtain ⟨modality', l'⟩ := entry
    rw [findItem]
    rcases List.mem_cons.mp hentry with heq | hentry
    · cases heq
      rw [hus]
      dsimp only
      cases hcontent : findContent encode out startIdx us with
      | none => exact absurd hcontent (findContent_ne_none hmem hne hstands)
      | some content => exact Option.some_ne_none _
    · cases l'[idx modality']? with
      | none => exact ih hentry
      | some us' =>
        dsimp only
        cases findContent encode out startIdx us' with
        | none => exact ih hentry
        | some content => exact Option.some_ne_none _

/-! ## All positions -/

/-- The matches that were applied and their places, where they can be found: every item has one, its content stands
there, no content stands anywhere else, and the items of a modality come in their order. -/
structure Findable (encode : String → List Int) (out : List Int) (updates : MultiModalPromptUpdates)
    (placed : List (Applied × Nat)) : Prop where
  ok : ∀ p ∈ placed, ∃ update, updateAt? updates p.1.key p.1.updateIdx = some update ∧
    p.1.content = seq2tokens encode update.content.full
  nonempty : ∀ p ∈ placed, p.1.content ≠ []
  stands : Edit.PlacedFrom out 0 (placed.map fun p => (p.2, p.1.content))
  only : ∀ key updateIdx update place, updateAt? updates key updateIdx = some update →
    seq2tokens encode update.content.full <+: out.drop place →
    ∃ p ∈ placed, p.1.key = key ∧ p.1.updateIdx = updateIdx ∧ p.2 = place
  order : ∀ modality l, updates.get? modality = some l →
    (placed.filter fun p => p.1.key.1 = modality).map (fun p => p.1.key.2) = List.range l.length

/-- The number of placed items of a modality. -/
def placedCount (placed : List (Applied × Nat)) (modality : String) : Nat :=
  (placed.filter fun p => p.1.key.1 = modality).length

theorem placedCount_append (done rest : List (Applied × Nat)) (modality : String) :
    placedCount (done ++ rest) modality = placedCount done modality + placedCount rest modality := by
  rw [placedCount, List.filter_append, List.length_append]
  rfl

theorem lt_length_of_append_eq_range {l r : List Nat} {n : Nat} (h : l ++ r = List.range n) :
    ∀ i ∈ l, i < l.length := by
  have htake : l = List.range (min l.length n) := by
    rw [← List.take_range, ← h, List.take_left]
  intro i hi
  rw [htake, List.mem_range] at hi
  exact hi.trans_le (Nat.min_le_left _ _)

theorem eq_length_of_append_cons_eq_range {l r : List Nat} {i n : Nat} (h : l ++ i :: r = List.range n) :
    i = l.length := by
  have hget : (l ++ i :: r)[l.length]? = some i := by simp
  rw [h, List.getElem?_eq_some_iff] at hget
  obtain ⟨_, hget⟩ := hget
  rw [List.getElem_range] at hget
  exact hget.symm

variable {done rest : List (Applied × Nat)} {p : Applied × Nat}

theorem Findable.modality (h : Findable encode out updates (done ++ rest)) (hq : q ∈ done ++ rest) :
    ∃ l, updates.get? q.1.key.1 = some l ∧
      (done.filter fun p => p.1.key.1 = q.1.key.1).map (fun p => p.1.key.2)
        ++ (rest.filter fun p => p.1.key.1 = q.1.key.1).map (fun p => p.1.key.2) = List.range l.length := by
  obtain ⟨update, hupdate, -⟩ := h.ok q hq
  obtain ⟨us, hus, -⟩ := updateAt?_eq_some.mp hupdate
  obtain ⟨l, hl, -⟩ := mem_itemUpdates.mp hus
  refine ⟨l, hl, ?_⟩
  rw [← List.map_append, ← List.filter_append]
  exact h.order _ l hl

/-- The items that are done are those with smaller indices. -/
theorem Findable.lt_of_done (h : Findable encode out updates (done ++ rest)) (hq : q ∈ done) :
    q.1.key.2 < placedCount done q.1.key.1 := by
  obtain ⟨l, -, hrange⟩ := h.modality (List.mem_append_left rest hq)
  have hlt := lt_length_of_append_eq_range hrange q.1.key.2
    (List.mem_map.mpr ⟨q, List.mem_filter.mpr ⟨hq, decide_eq_true rfl⟩, rfl⟩)
  rwa [List.length_map] at hlt

/-- The item that comes next is the next one of its modality. -/
theorem Findable.next (h : Findable encode out updates (done ++ p :: rest)) :
    p.1.key.2 = placedCount done p.1.key.1 := by
  obtain ⟨l, -, hrange⟩ := h.modality (List.mem_append_right done List.mem_cons_self)
  rw [List.filter_cons_of_pos (by simp), List.map_cons] at hrange
  rw [eq_length_of_append_cons_eq_range hrange, List.length_map]
  rfl

/-- Places are different. -/
theorem Findable.eq_of_place (h : Findable encode out updates (done ++ p :: rest)) (hq : q ∈ done ++ p :: rest)
    (hplace : q.2 = p.2) : q = p := by
  have hpairwise := List.pairwise_map.mp h.stands.pairwise
  obtain ⟨-, hback, hcross⟩ := List.pairwise_append.mp hpairwise
  have hp := List.length_pos_of_ne_nil (h.nonempty p (List.mem_append_right done List.mem_cons_self))
  have hqlen := List.length_pos_of_ne_nil (h.nonempty q hq)
  rcases List.mem_append.mp hq with hq | hq
  · have hle := hcross q hq p List.mem_cons_self
    dsimp only at hle
    omega
  · rcases List.mem_cons.mp hq with rfl | hq
    · rfl
    · have hle := (List.pairwise_cons.mp hback).1 q hq
      dsimp only at hle
      omega

theorem Findable.allItemsFound_iff (h : Findable encode out updates (done ++ rest))
    (hidx : ∀ m, idx m = placedCount done m) : allItemsFound updates idx = true ↔ rest = [] := by
  have hcount : ∀ modality l, updates.get? modality = some l → placedCount (done ++ rest) modality = l.length := by
    intro modality l hl
    have hlen := congrArg List.length (h.order modality l hl)
    rwa [List.length_map, List.length_range] at hlen
  rw [allItemsFound, List.all_eq_true]
  constructor
  · intro hall
    refine List.eq_nil_iff_forall_not_mem.mpr fun q hq => ?_
    obtain ⟨l, hl, -⟩ := h.modality (List.mem_append_right done hq)
    have hle := of_decide_eq_true (hall _ (Dict.get?_eq_some.mp hl))
    have hpos : 0 < placedCount rest q.1.key.1 :=
      List.length_pos_of_mem (List.mem_filter.mpr ⟨hq, decide_eq_true rfl⟩)
    have hsum := hcount _ l hl
    rw [placedCount_append] at hsum
    rw [hidx] at hle
    dsimp only at hle
    omega
  · rintro rfl e he
    have hsum := hcount e.1 e.2 (Dict.get?_eq_some.mpr he)
    rw [List.append_nil] at hsum
    rw [hidx, hsum]
    exact decide_eq_true le_rfl

/-- Nothing but the next item is found, and only at its place. -/
theorem Findable.of_findItem (h : Findable encode out updates (done ++ p :: rest))
    (hidx : ∀ m, idx m = placedCount done m) (hstart : startIdx ≤ p.2)
    (hinfo : findItem encode out startIdx idx updates.entries = some info) :
    startIdx = p.2 ∧ info = infoOf updates p := by
  obtain ⟨modality, l, us, updateIdx, update, hentry, hus, hupdate, hstands, rfl⟩ := findItem_eq_some hinfo
  have hat : updateAt? updates (modality, idx modality) updateIdx = some update :=
    updateAt?_eq_some.mpr ⟨us, mem_itemUpdates.mpr ⟨l, Dict.get?_eq_some.mpr hentry, hus⟩, hupdate⟩
  obtain ⟨q, hq, hkey, hidxUpdate, hplace⟩ := h.only _ _ _ _ hat hstands
  have hqrest : q ∉ done := by
    intro hdone
    have hlt := h.lt_of_done hdone
    rw [hkey, hidx] at hlt
    exact lt_irrefl _ hlt
  have hle : p.2 ≤ q.2 := by
    rcases List.mem_append.mp hq with hdone | hback
    · exact absurd hdone hqrest
    · rcases List.mem_cons.mp hback with rfl | hback
      · exact le_rfl
      · have hpairwise := List.pairwise_map.mp h.stands.pairwise
        have hrest := (List.pairwise_cons.mp (List.pairwise_append.mp hpairwise).2.1).1 q hback
        exact (Nat.le_add_right _ _).trans hrest
  have hstartIdx : startIdx = p.2 := le_antisymm hstart (hplace ▸ hle)
  obtain rfl := h.eq_of_place hq (hplace.trans hstartIdx)
  refine ⟨hstartIdx, ?_⟩
  obtain ⟨update', hupdate', hcontent⟩ := h.ok q hq
  rw [hkey, hidxUpdate, hat] at hupdate'
  cases hupdate'
  rw [infoOf, hkey, hidxUpdate, hat, hcontent, hstartIdx]
  rfl

/-- At its place, the next item is found. -/
theorem Findable.findItem_ne_none (h : Findable encode out updates (done ++ p :: rest))
    (hidx : ∀ m, idx m = placedCount done m) : findItem encode out p.2 idx updates.entries ≠ none := by
  have hp : p ∈ done ++ p :: rest := List.mem_append_right done List.mem_cons_self
  obtain ⟨update, hupdate, hcontent⟩ := h.ok p hp
  obtain ⟨us, hus, hget⟩ := updateAt?_eq_some.mp hupdate
  obtain ⟨l, hl, hlus⟩ := mem_itemUpdates.mp hus
  have hnext : l[idx p.1.key.1]? = some us := by rw [hidx, ← h.next, hlus]
  have hne := h.nonempty p hp
  have hstands := h.stands.stands _ (List.mem_map_of_mem hp)
  rw [hcontent] at hne hstands
  exact Multimodal.findItem_ne_none (Dict.get?_eq_some.mp hl) hnext (List.mem_of_getElem? hget) hne hstands

/-- At every position the scan finds the item that was placed there. -/
theorem placeholdersFrom_eq {fuel : Nat} (h : Findable encode out updates (done ++ rest)) (hne : rest ≠ [])
    (hidx : ∀ m, idx m = placedCount done m) (hstart : ∀ q ∈ rest, startIdx ≤ q.2)
    (hfuel : out.length ≤ startIdx + fuel) :
    placeholdersFrom encode out updates fuel startIdx idx = rest.map (infoOf updates) := by
  have hbound : ∀ q ∈ rest, q.2 + q.1.content.length ≤ out.length ∧ 0 < q.1.content.length := by
    intro q hq
    have hmem := List.mem_append_right done hq
    have hpos := List.length_pos_of_ne_nil (h.nonempty q hmem)
    have hlen := (h.stands.stands _ (List.mem_map_of_mem hmem)).length_le
    rw [List.length_drop] at hlen
    dsimp only at hlen
    omega
  induction fuel generalizing done rest startIdx idx with
  | zero =>
    obtain ⟨p, rest, rfl⟩ := List.exists_cons_of_ne_nil hne
    have hle := hstart p List.mem_cons_self
    have hlen := hbound p List.mem_cons_self
    omega
  | succ fuel ih =>
    obtain ⟨p, rest, rfl⟩ := List.exists_cons_of_ne_nil hne
    have hle := hstart p List.mem_cons_self
    have hlen := hbound p List.mem_cons_self
    rw [placeholdersFrom, if_pos (by omega)]
    rcases hinfo : findItem encode out startIdx idx updates.entries with _ | info
    · -- the scan goes on, up to the place of the next item
      have hlt : startIdx ≠ p.2 := by
        rintro rfl
        exact h.findItem_ne_none hidx hinfo
      refine ih h hne hidx (fun q hq => ?_) (by omega) hbound
      rcases List.mem_cons.mp hq with rfl | hback
      · omega
      · have hpairwise := List.pairwise_map.mp h.stands.pairwise
        have hnext := (List.pairwise_cons.mp (List.pairwise_append.mp hpairwise).2.1).1 q hback
        omega
    · obtain ⟨rfl, rfl⟩ := h.of_findItem hidx hle hinfo
      have hdone : done ++ p :: rest = (done ++ [p]) ++ rest := by simp
      have hidx' : ∀ m, Function.update idx (infoOf updates p).modality ((infoOf updates p).itemIdx + 1) m
          = placedCount (done ++ [p]) m := by
        intro m
        rw [placedCount_append, ← hidx]
        by_cases hm : m = p.1.key.1
        · subst hm
          have hone : placedCount [p] p.1.key.1 = 1 := by simp [placedCount]
          have hkey : (infoOf updates p).itemIdx = idx p.1.key.1 := h.next.trans (hidx _).symm
          rw [hone, hkey]
          exact Function.update_self ..
        · have hzero : placedCount [p] m = 0 := by simp [placedCount, Ne.symm hm]
          rw [hzero]
          exact Function.update_of_ne hm ..
      dsimp only
      rw [hdone] at h
      have hall := h.allItemsFound_iff hidx'
      cases hrest : rest with
      | nil => rw [if_pos (hall.mpr hrest), List.map_singleton]
      | cons q rest' =>
        have hne' : rest ≠ [] := by
          rw [hrest]
          exact List.cons_ne_nil _ _
        rw [if_neg (fun hfound => hne' (hall.mp hfound)), ← hrest]
        refine congrArg (List.cons _) (ih h hne' hidx' (fun q' hq' => ?_) ?_ fun q' hq' => ?_)
        · have hpairwise := List.pairwise_map.mp h.stands.pairwise
          rw [List.append_assoc] at hpairwise
          exact (List.pairwise_cons.mp (List.pairwise_append.mp hpairwise).2.1).1 q' hq'
        · have htokens : (infoOf updates p).tokens = p.1.content := rfl
          rw [htokens]
          omega
        · exact hbound q' (List.mem_cons_of_mem p hq')

end Yuan.Multimodal
