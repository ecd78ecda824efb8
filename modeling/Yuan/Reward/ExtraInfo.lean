import Yuan.Reward.RewardManager

/-!
# The lists of extra information

Each row adds one value to the list of each of its keys. Rows with the same keys keep the lists in step.
-/

namespace Yuan.Reward.RewardManager

variable {key : String} {info : Dict String (List Value)}

/-- What a row has in a list. -/
def rowValue (score : Score) (key : String) : Option Value :=
  if contains key "process" ∨ key = "acc_score" then none
  else score.get? (if key = "acc" then "acc_score" else key)

/-- One entry of a row. -/
def addEntry (info : Dict String (List Value)) (e : String × Value) : Dict String (List Value) :=
  if contains e.1 "process" then info
  else info.set (if e.1 = "acc_score" then "acc" else e.1)
    ((info.get? (if e.1 = "acc_score" then "acc" else e.1)).getD [] ++ [e.2])

/-- An entry goes to the list that takes its values from its key. -/
theorem get?_addEntry (info : Dict String (List Value)) {k : String} (hacc : k ≠ "acc") (v : Value)
    (hkey : ¬ (contains key "process" = true ∨ key = "acc_score")) :
    (addEntry info (k, v)).get? key = if (if key = "acc" then "acc_score" else key) = k
      then some ((info.get? key).getD [] ++ [v]) else info.get? key := by
  rw [not_or] at hkey
  unfold addEntry
  by_cases hsource : (if key = "acc" then "acc_score" else key) = k
  · rw [if_pos hsource]
    have hprocess : ¬ contains k "process" = true := by
      rw [← hsource]
      split
      · decide
      · exact hkey.1
    have hto : (if k = "acc_score" then "acc" else k) = key := by
      by_cases hisacc : key = "acc"
      · rw [if_pos hisacc] at hsource
        rw [if_pos hsource.symm, hisacc]
      · rw [if_neg hisacc] at hsource
        rw [if_neg (hsource ▸ hkey.2), hsource]
    rw [if_neg hprocess, hto, Dict.get?_set_self]
  · rw [if_neg hsource]
    split
    · rfl
    · refine Dict.get?_set_of_ne _ _ fun heq => hsource ?_
      by_cases hscore : k = "acc_score"
      · rw [if_pos hscore] at heq
        rw [if_pos heq, hscore]
      · rw [if_neg hscore] at heq
        rw [if_neg (by rw [heq]; exact hacc), heq]

/-- No entry goes to the lists that are left out. -/
theorem get?_addEntry_of_skipped (info : Dict String (List Value)) {k : String} (v : Value)
    (hkey : contains key "process" = true ∨ key = "acc_score") : (addEntry info (k, v)).get? key = info.get? key := by
  unfold addEntry
  dsimp only
  split
  · rfl
  case isFalse hprocess =>
    refine Dict.get?_set_of_ne _ _ fun heq => ?_
    by_cases hscore : k = "acc_score"
    · rw [if_pos hscore] at heq
      rw [heq] at hkey
      exact absurd hkey (by decide)
    · rw [if_neg hscore] at heq
      rcases hkey with hkey | hkey
      · rw [heq] at hkey
        exact hprocess hkey
      · exact hscore (heq ▸ hkey)

theorem addEntries {l : List (String × Value)} (hnodup : (l.map Prod.fst).Nodup) (hacc : "acc" ∉ l.map Prod.fst) :
    (l.foldl addEntry info).get? key =
    ((if contains key "process" ∨ key = "acc_score" then none
      else l.lookup (if key = "acc" then "acc_score" else key)).map fun v =>
        (info.get? key).getD [] ++ [v]).or (info.get? key) := by
  induction l generalizing info with
  | nil =>
    rw [List.foldl_nil, List.lookup_nil, ite_self]
    rfl
  | cons e l ih =>
    obtain ⟨k, v⟩ := e
    rw [List.map_cons, List.nodup_cons] at hnodup
    rw [List.map_cons, List.mem_cons, not_or] at hacc
    rw [List.foldl_cons, ih hnodup.2 hacc.2]
    by_cases hkey : contains key "process" ∨ key = "acc_score"
    · rw [if_pos hkey, if_pos hkey, get?_addEntry_of_skipped info v hkey]
    · rw [if_neg hkey, if_neg hkey, get?_addEntry info (Ne.symm hacc.1) v hkey]
      by_cases hsource : (if key = "acc" then "acc_score" else key) = k
      · have hnone : l.lookup k = none := by
          rw [List.lookup_eq_none_iff]
          intro e he
          have hne : k ≠ e.1 := by
            rintro rfl
            have hmem : e.1 ∈ l.map Prod.fst := List.mem_map_of_mem he
            exact hnodup.1 hmem
          simpa using hne
        rw [if_pos hsource, hsource, hnone, List.lookup_cons_self]
        rfl
      · rw [if_neg hsource, List.lookup_cons, beq_false_of_ne hsource]

/-- A row adds its value to each of its lists. -/
theorem get?_appendExtraInfo {score : Score} (h : score.get? "acc" = none) (key : String) :
    (appendExtraInfo info score).get? key =
      ((rowValue score key).map fun v => (info.get? key).getD [] ++ [v]).or (info.get? key) :=
  addEntries score.nodup (Dict.get?_eq_none.mp h)

/-- The lists of the rows so far, of which each has the keys `K`. -/
structure Columns (K : String → Prop) (rows : List Score) (info : Dict String (List Value)) : Prop where
  column : ∀ key values, info.get? key = some values →
    List.Forall₂ (fun row v => rowValue row key = some v) rows values
  present : ∀ key, (info.get? key).isSome → K key
  complete : rows ≠ [] → ∀ key, K key → (info.get? key).isSome

theorem Columns.empty (K : String → Prop) : Columns K [] .empty :=
  ⟨fun _ _ h => (by cases h), fun _ h => (by cases h), fun h => absurd rfl h⟩

theorem Columns.append {K : String → Prop} {rows : List Score} {row : Score} (h : Columns K rows info)
    (hacc : row.get? "acc" = none) (hrow : ∀ key, (rowValue row key).isSome ↔ K key) :
    Columns K (rows ++ [row]) (appendExtraInfo info row) := by
  refine ⟨fun key values hvalues => ?_, fun key hkey => ?_, fun _ key hkey => ?_⟩
  · rw [get?_appendExtraInfo hacc] at hvalues
    cases hvalue : rowValue row key with
    | some v =>
      rw [hvalue] at hvalues
      cases hvalues
      refine List.rel_append ?_ (.cons hvalue .nil)
      cases hinfo : info.get? key with
      | some before => exact h.column key before hinfo
      | none =>
        -- there is no row yet
        have hK : K key := (hrow key).mp (by rw [hvalue]; rfl)
        by_cases hnil : rows = []
        · rw [hnil]
          exact .nil
        · have hsome := h.complete hnil key hK
          rw [hinfo] at hsome
          cases hsome
    | none =>
      rw [hvalue] at hvalues
      have hK := h.present key (by rw [show info.get? key = some values from hvalues]; rfl)
      rw [← hrow key, hvalue] at hK
      cases hK
  · rw [get?_appendExtraInfo hacc] at hkey
    cases hvalue : rowValue row key with
    | some v =>
      rw [← hrow key, hvalue]
      rfl
    | none =>
      rw [hvalue] at hkey
      exact h.present key hkey
  · rw [get?_appendExtraInfo hacc]
    obtain ⟨v, hv⟩ := Option.isSome_iff_exists.mp ((hrow key).mpr hkey)
    rw [hv]
    rfl

/-! ## Keys -/

theorem get?_fillKeys (keys : List String) (score : Score) (key : String) :
    (fillKeys keys score).get? key = (score.get? key).or (if key ∈ keys then some .none else none) := by
  unfold fillKeys
  induction keys generalizing score with
  | nil => rw [List.foldl_nil, if_neg List.not_mem_nil, Option.or_none]
  | cons k keys ih =>
    rw [List.foldl_cons, ih]
    by_cases hmem : k ∈ score.keys
    · rw [if_pos hmem]
      by_cases heq : key = k
      · obtain ⟨v, hv⟩ := Option.isSome_iff_exists.mp (Dict.isSome_get?.mpr hmem)
        rw [heq, hv]
        rfl
      · simp only [List.mem_cons, heq, false_or]
    · rw [if_neg hmem]
      by_cases heq : key = k
      · rw [heq, Dict.get?_set_self, Dict.get?_eq_none.mpr hmem, if_pos List.mem_cons_self]
        rfl
      · rw [Dict.get?_set_of_ne _ _ heq]
        simp only [List.mem_cons, heq, false_or]

theorem isSome_fillKeys (keys : List String) (score : Score) (key : String) :
    ((fillKeys keys score).get? key).isSome ↔ (score.get? key).isSome ∨ key ∈ keys := by
  rw [get?_fillKeys]
  cases score.get? key with
  | some v => simp
  | none =>
    by_cases h : key ∈ keys
    · simp [h]
    · simp [h]

theorem mem_allKeys {scores : List Score} : key ∈ allKeys scores ↔ ∃ score ∈ scores, (score.get? key).isSome := by
  unfold allKeys
  rw [List.mem_dedup, List.mem_flatMap]
  constructor
  · rintro ⟨score, hmem, hkey⟩
    exact ⟨score, hmem, Dict.isSome_get?.mpr hkey⟩
  · rintro ⟨score, hmem, hkey⟩
    exact ⟨score, hmem, Dict.isSome_get?.mp hkey⟩

/-! ## Samples with several answers -/

/-- The samples of a prompt that are scored together. -/
def answersOf (data : List DataItem) (uid : String) : List DataItem :=
  data.filter fun item => item.rewardMethod ∈ ["mllm_normal", "mllm_choice"] ∧ item.uid = uid

theorem answersOf_cons {item : DataItem} {data : List DataItem} {uid : String}
    (h : item.rewardMethod ∈ ["mllm_normal", "mllm_choice"] ∧ item.uid = uid) :
    answersOf (item :: data) uid = item :: answersOf data uid :=
  List.filter_cons_of_pos (decide_eq_true h)

theorem answersOf_cons_of_not {item : DataItem} {data : List DataItem} {uid : String}
    (h : ¬ (item.rewardMethod ∈ ["mllm_normal", "mllm_choice"] ∧ item.uid = uid)) :
    answersOf (item :: data) uid = answersOf data uid :=
  List.filter_cons_of_neg (by rw [decide_eq_true_eq]; exact h)

/-- The number of scores collected for a prompt. -/
def collected (uids : Dict String UidEntry) (uid : String) : Nat :=
  ((uids.get? uid).map fun entry => entry.accScoreAll.length).getD 0

variable {m : RewardManager}

theorem collected_add (uids : Dict String UidEntry) (uid uid' : String) (acc : ℚ) (text : Bool) :
    collected (uids.set uid' {
      accScoreAll := ((uids.get? uid').getD {}).accScoreAll ++ [acc]
      textAll := ((uids.get? uid').getD {}).textAll ++ [text] }) uid =
    collected uids uid + if uid' = uid then 1 else 0 := by
  unfold collected
  by_cases heq : uid' = uid
  · rw [heq, Dict.get?_set_self, if_pos rfl, Option.map_some, Option.getD_some, List.length_append]
    cases uids.get? uid <;> rfl
  · rw [Dict.get?_set_of_ne _ _ (Ne.symm heq), if_neg heq, Nat.add_zero]

/-- What is collected, when every such sample has its score. -/
theorem collectUids_ok {samples : List (DataItem × Score)} {uids uids' : Dict String UidEntry}
    (h : m.collectUids uids samples = .ok uids') :
    (∀ sample ∈ samples, sample.1.rewardMethod ∈ ["mllm_normal", "mllm_choice"] → (sample.2.get? "acc_score").isSome) ∧
    (∀ uid, collected uids' uid = collected uids uid + (answersOf (samples.map Prod.fst) uid).length) ∧
    ∀ uid, uid ∈ uids'.keys ↔ uid ∈ uids.keys ∨ answersOf (samples.map Prod.fst) uid ≠ [] := by
  induction samples generalizing uids with
  | nil =>
    cases h
    exact ⟨fun _ h => absurd h List.not_mem_nil, fun _ => rfl,
      fun _ => ⟨.inl, fun h => h.elim id fun h => absurd rfl h⟩⟩
  | cons sample samples ih =>
    obtain ⟨item, score⟩ := sample
    rw [collectUids] at h
    split at h
    case isTrue hmllm =>
      obtain ⟨acc, hacc, h⟩ := bind_eq_ok.mp h
      obtain ⟨hall, hcount, hkeys⟩ := ih h
      refine ⟨?_, fun uid => ?_, fun uid => ?_⟩
      · intro sample hmem hmethod
        rcases List.mem_cons.mp hmem with rfl | hmem
        · unfold mllmAccScore at hacc
          cases hget : score.get? "acc_score" with
          | some v => rfl
          | none =>
            rw [hget] at hacc
            cases hacc
        · exact hall sample hmem hmethod
      · rw [hcount uid, collected_add, List.map_cons]
        by_cases heq : item.uid = uid
        · rw [if_pos heq, answersOf_cons ⟨hmllm, heq⟩, List.length_cons]
          omega
        · rw [if_neg heq, answersOf_cons_of_not fun h => heq h.2, Nat.add_zero]
      · rw [hkeys uid, Dict.mem_keys_set, List.map_cons]
        by_cases heq : item.uid = uid
        · rw [answersOf_cons ⟨hmllm, heq⟩]
          exact iff_of_true (.inl (.inl heq.symm)) (.inr (List.cons_ne_nil _ _))
        · rw [answersOf_cons_of_not fun h => heq h.2]
          tauto
    case isFalse hmllm =>
      obtain ⟨hall, hcount, hkeys⟩ := ih h
      have hskip : ∀ uid, answersOf (((item, score) :: samples).map Prod.fst) uid =
          answersOf (samples.map Prod.fst) uid := fun uid => answersOf_cons_of_not fun h => hmllm h.1
      refine ⟨?_, fun uid => by rw [hskip]; exact hcount uid, fun uid => by rw [hskip]; exact hkeys uid⟩
      intro sample hmem hmethod
      rcases List.mem_cons.mp hmem with rfl | hmem
      · exact absurd hmethod hmllm
      · exact hall sample hmem hmethod

theorem collectUids_isOk (uids : Dict String UidEntry) (samples : List (DataItem × Score))
    (h : ∀ sample ∈ samples, sample.1.rewardMethod ∈ ["mllm_normal", "mllm_choice"] →
      sample.2.get? "acc_score" = some (.num 1) ∨ sample.2.get? "acc_score" = some (.num (-1))) :
    ∃ uids', m.collectUids uids samples = .ok uids' := by
  induction samples generalizing uids with
  | nil => exact ⟨uids, rfl⟩
  | cons sample samples ih =>
    obtain ⟨item, score⟩ := sample
    have hrest := fun sample hmem => h sample (List.mem_cons_of_mem _ hmem)
    rw [collectUids]
    split
    case isTrue hmllm =>
      obtain ⟨acc, hacc⟩ : ∃ acc, mllmAccScore score = .ok acc := by
        unfold mllmAccScore
        rcases h _ List.mem_cons_self hmllm with hone | hone
        · rw [show score.get? "acc_score" = some (.num 1) from hone]
          exact ⟨1, by decide⟩
        · rw [show score.get? "acc_score" = some (.num (-1)) from hone]
          exact ⟨-1, by decide⟩
      rw [hacc]
      exact ih _ hrest
    case isFalse => exact ih uids hrest

/-- Every prompt that was collected has the same number of samples. -/
theorem deleteFlags_isOk_iff (uids : Dict String UidEntry) :
    (∃ flags, m.deleteFlags uids = .ok flags) ↔ ∀ uid ∈ uids.keys, collected uids uid = m.nSamplesPerPrompt := by
  have hentry : ∀ uid entry, (uid, entry) ∈ uids.entries → collected uids uid = entry.accScoreAll.length := by
    intro uid entry hmem
    unfold collected
    rw [Dict.get?_eq_some.mpr hmem]
    rfl
  constructor
  · rintro ⟨flags, hflags⟩ uid huid
    obtain ⟨entry, hmem⟩ := Dict.mem_keys.mp huid
    obtain ⟨i, hi⟩ := List.mem_iff_getElem?.mp hmem
    obtain ⟨flag, -, hflag⟩ := getElem?_of_forall₂ (mapM_eq_ok.mp hflags) hi
    obtain ⟨u, hassert, -⟩ := bind_eq_ok.mp hflag
    rw [hentry uid entry hmem]
    exact of_decide_eq_true (pyAssert_eq_ok.mp hassert)
  · intro h
    suffices hsuffices : ∀ l : List (String × UidEntry),
        (∀ e ∈ l, e.2.accScoreAll.length = m.nSamplesPerPrompt) → ∃ flags, (l.mapM fun (e : String × UidEntry) => do
          pyAssert (e.2.accScoreAll.length = m.nSamplesPerPrompt) "len(acc_score_all) == self.n_samples_per_prompt"
          return (e.1, decide (e.2.accScoreAll.sum ≤ 0) && e.2.textAll.any id)) = Except.ok flags by
      refine hsuffices _ ?_
      rintro ⟨uid, entry⟩ hmem
      rw [← hentry uid entry hmem]
      exact h uid (Dict.mem_keys_of_mem hmem)
    intro l hl
    induction l with
    | nil => exact ⟨[], rfl⟩
    | cons e l ih =>
      obtain ⟨flags, hflags⟩ := ih fun e he => hl e (List.mem_cons_of_mem _ he)
      rw [List.mapM_cons, hflags, decide_eq_true (hl e List.mem_cons_self)]
      exact ⟨_, rfl⟩

end Yuan.Reward.RewardManager
