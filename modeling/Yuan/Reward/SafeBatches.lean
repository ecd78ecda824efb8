import Yuan.Reward.RewardRuns

/-!
# Batches whose rows stay with their samples

Calls with the same pattern may return any scores. Whatever they return, the rows stay with their samples exactly
if the pattern is safe.
-/

namespace Yuan.Reward.RewardManager

variable {m : RewardManager} {calls : Calls} {completion : Completion} {data : List DataItem} {pattern : Pattern}
  {p : Nat} {item : DataItem} {finals : List Score}

/-! ## The leader of a group -/

theorem ofMethod_self (hitem : data[p]? = some item) : ofMethod data item.rewardMethod p = true := by
  unfold ofMethod
  rw [hitem]
  exact decide_eq_true rfl

theorem leader_firstOf (hitem : data[p]? = some item) :
    leader m.nSamplesPerPrompt (ofMethod data item.rewardMethod) (p + 1) = some (m.firstOf data p item) := by
  have hpos : 0 < countBefore (ofMethod data item.rewardMethod) (p + 1) := by
    rw [countBefore_succ (ofMethod_self hitem)]
    omega
  obtain ⟨l, hl⟩ := Option.isSome_iff_exists.mp (leader_isSome (n := m.nSamplesPerPrompt) hpos)
  unfold firstOf
  rw [hl]
  rfl

/-- The scored samples of a safe batch are grouped as the samples are. -/
theorem Safe.leader (h : m.Safe data pattern) (hitem : data[p]? = some item)
    (hjudged : item.rewardMethod ∈ generalMethods) (hscored : pattern.computeScore p = .scored) :
    m.firstOf data p item ≤ p ∧ p - m.firstOf data p item < m.nSamplesPerPrompt ∧
      (∃ first, data[m.firstOf data p item]? = some first ∧ first.rewardMethod = item.rewardMethod ∧
        m.leads data (m.firstOf data p item) first) ∧
      Yuan.leader m.nSamplesPerPrompt (scoredOf data pattern item.rewardMethod) (p + 1) = some (m.firstOf data p item) ∧
      countBefore (scoredOf data pattern item.rewardMethod) p % m.nSamplesPerPrompt = p - m.firstOf data p item := by
  obtain ⟨hzero, hrun⟩ := h.groups p item hitem hjudged hscored
  obtain ⟨hlt, hof, hleads, hgroup⟩ := leader_eq_some m.samples_pos (leader_firstOf (m := m) hitem)
  have hle : m.firstOf data p item ≤ p := Nat.lt_succ_iff.mp hlt
  have hofAll : ∀ q, m.firstOf data p item ≤ q → q < p → ofMethod data item.rewardMethod q = true := by
    intro q hq hqp
    have hscoredOf := hrun q hq (Nat.le_of_lt hqp)
    unfold scoredOf at hscoredOf
    rw [Bool.and_eq_true] at hscoredOf
    exact hscoredOf.1
  have hcount := (countBefore_eq_add hle).mpr hofAll
  rw [countBefore_succ (ofMethod_self hitem), Nat.add_sub_cancel] at hgroup
  have hmod := Nat.mod_lt (countBefore (ofMethod data item.rewardMethod) p) m.samples_pos
  have hplace : p - m.firstOf data p item < m.nSamplesPerPrompt := by omega
  obtain ⟨hleader, hcountScored⟩ := leader_of_run hzero hle hplace hrun
  have hltData : m.firstOf data p item < data.length :=
    Nat.lt_of_le_of_lt hle (List.getElem?_eq_some_iff.mp hitem).1
  have hfirst := List.getElem?_eq_getElem hltData
  have hmethod : (data[m.firstOf data p item]).rewardMethod = item.rewardMethod := by
    unfold ofMethod at hof
    rw [hfirst, decide_eq_true_eq, Option.map_some, Option.some.injEq] at hof
    exact hof
  refine ⟨hle, hplace, ⟨_, hfirst, hmethod, ?_⟩, hleader, hcountScored⟩
  unfold leads methodCount
  rw [hmethod]
  exact hleads

/-! ## Rows of safe batches -/

/-- In a safe batch a sample gets the row that it gets alone. -/
theorem Safe.rowScore {f : Score} {counters : String → ResultCounter} (h : m.Safe data pattern)
    (hfollows : m.Follows data pattern calls) (hall : AllKnown m calls data pattern finals)
    (hcounters : CountersFor m data pattern finals p counters) (hitem : data[p]? = some item) (hf : finals[p]? = some f)
    (overlongFilterFlag : Bool) :
    ∃ counters' own' r, m.rowScore counters item overlongFilterFlag f = .ok (counters', r) ∧
      m.rowScore (fun _ => ownCounter calls (m.firstOf data p item) (p - m.firstOf data p item)) item
        overlongFilterFlag f = .ok (own', r) ∧
      (item.rewardMethod ∈ generalMethods → pattern.computeScore p = .scored → ∃ xs judgement x,
        calls.generalReward (m.firstOf data p item) = .ok (.nums xs, judgement) ∧
        xs[p - m.firstOf data p item]? = some x ∧ r.get? "acc_score" = some (.num x)) := by
  have hknown := hall.known p item f hitem hf
  by_cases hscored : pattern.computeScore p = .scored
  · have hready := hknown.ready hscored
    by_cases hjudged : item.rewardMethod ∈ generalMethods
    · have hisScored := hknown.isScored hscored hjudged
      obtain ⟨xsf, judgementf, haccf, hjudgementf, hleadsf, -⟩ := hknown.judged hjudged
      obtain ⟨l, fl, hl, hfl, haccs, hjudgements⟩ := held_leader hcounters hitem hf hjudged hscored haccf hjudgementf
      obtain ⟨hle, hplace, ⟨first, hfirst, hmethod, hleads⟩, hleader, hcount⟩ := h.leader hitem hjudged hscored
      rw [hleader] at hl
      cases hl
      -- the judge has scored the group
      obtain ⟨xs, judgement, haccl, hjudgementl, hasked, -⟩ :=
        (hall.known _ first fl hfirst hfl).judged (hmethod ▸ hjudged)
      have hcall := hasked hleads
      obtain ⟨-, xs', hxs', hlength⟩ := Returns.ok (hfollows.generalReward _) hcall
      cases hxs'
      have hltData := (List.getElem?_eq_some_iff.mp hitem).1
      have hx : xs[p - m.firstOf data p item]? = some xs[p - m.firstOf data p item] :=
        List.getElem?_eq_getElem (by omega)
      rw [haccl] at haccs
      rw [hjudgementl] at hjudgements
      have hat : Value.at (.nums xs) (p - m.firstOf data p item) =
          .ok (.num xs[p - m.firstOf data p item]) := by
        unfold Value.at
        dsimp only
        rw [hx]
      obtain ⟨r, -, hracc, hrow⟩ := rowScore_judged (m := m) hready hisScored hjudged haccf hjudgementf
        overlongFilterFlag (p - m.firstOf data p item) judgement xs[p - m.firstOf data p item]
      -- the sample alone
      have hown : ownCounter calls (m.firstOf data p item) (p - m.firstOf data p item) =
          ⟨((p - m.firstOf data p item : Nat) : Int) - 1, .nums xs, judgement⟩ := by
        unfold ownCounter
        rw [hcall]
      have hownRep : m.repIdx (ownCounter calls (m.firstOf data p item) (p - m.firstOf data p item)) =
          p - m.firstOf data p item := by
        rw [hown]
        unfold repIdx
        dsimp only
        rw [Int.sub_add_cancel, ← Int.natCast_emod, Int.toNat_natCast, Nat.mod_eq_of_lt hplace]
      have hownFirst : p - m.firstOf data p item = 0 → xsf = xs ∧ judgementf = judgement := by
        intro hzero
        have heq : m.firstOf data p item = p := by omega
        rw [heq] at hfirst hleads hcall
        rw [hitem] at hfirst
        cases hfirst
        have hcallf := hleadsf hleads
        rw [hcall] at hcallf
        cases hcallf
        exact ⟨rfl, rfl⟩
      have hownHeld : (m.held (ownCounter calls (m.firstOf data p item) (p - m.firstOf data p item)) (.nums xsf)
          judgementf).accScores = .nums xs ∧
          (m.held (ownCounter calls (m.firstOf data p item) (p - m.firstOf data p item)) (.nums xsf)
          judgementf).llmGeneralJudgement = judgement := by
        unfold held
        dsimp only
        rw [hownRep]
        by_cases hzero : p - m.firstOf data p item = 0
        · obtain ⟨rfl, rfl⟩ := hownFirst hzero
          rw [if_pos hzero, if_pos hzero]
          exact ⟨rfl, rfl⟩
        · rw [if_neg hzero, if_neg hzero, hown]
          exact ⟨rfl, rfl⟩
      refine ⟨_, _, r, hrow counters ?_ (Option.some.inj hjudgements).symm ?_,
        hrow (fun _ => ownCounter calls (m.firstOf data p item) (p - m.firstOf data p item)) hownRep hownHeld.2 ?_,
        fun _ _ => ⟨xs, judgement, _, hcall, hx, hracc⟩⟩
      · rw [repIdx_eq hcounters hjudged, hcount]
      · rw [← Option.some.inj haccs]
        exact hat
      · rw [hownHeld.1]
        exact hat
    · cases hisScored : RewardManager.isScored f with
      | true =>
        obtain ⟨r, -, hrow⟩ := rowScore_other (m := m) hready hisScored hjudged overlongFilterFlag
        exact ⟨_, _, r, hrow _, hrow _, fun hmem => absurd hmem hjudged⟩
      | false =>
        obtain ⟨-, hrow⟩ := rowScore_failed (m := m) hisScored
        exact ⟨_, _, _, hrow _ _ _, hrow _ _ _, fun hmem => absurd hmem hjudged⟩
  · obtain ⟨-, hrow⟩ := rowScore_failed (m := m) (hknown.failed hscored)
    exact ⟨_, _, _, hrow _ _ _, hrow _ _ _, fun _ h => absurd h hscored⟩

/-- The loop over a safe batch does not fail. -/
theorem Safe.makeRows_isOk (keys : List String) (deleteFlags : List (String × Bool)) (rows : Rows)
    {samples : List (DataItem × Score)} (h : m.Safe data pattern) (hfollows : m.Follows data pattern calls)
    (hall : AllKnown m calls data pattern finals) (hsamples : (data.zip finals).drop p = samples)
    (hcounters : CountersFor m data pattern finals p rows.counters) :
    ∃ rows', m.makeRows keys deleteFlags rows (samples.map withFlag) = .ok rows' := by
  induction samples generalizing p rows with
  | nil => exact ⟨rows, rfl⟩
  | cons sample samples ih =>
    obtain ⟨hitem, hf⟩ := getElem?_of_drop_zip hsamples
    obtain ⟨counters', own', r, hr, -, -⟩ := h.rowScore hfollows hall hcounters hitem hf
      (getRewardInput sample.1).overlongFilterFlag
    obtain ⟨hnext, hrowFor, -⟩ := row_step hall hcounters hitem hf hr
    obtain ⟨x, next, -, hadd, hcounters', -, -⟩ :=
      addRow_of_rowScore keys deleteFlags rows hr hrowFor
    rw [← hcounters'] at hnext
    obtain ⟨rows', hrows'⟩ := ih next (drop_succ_of_drop hsamples) hnext
    refine ⟨rows', ?_⟩
    show m.addRow keys deleteFlags rows sample.1 (getRewardInput sample.1).overlongFilterFlag sample.2 >>= _ = _
    rw [hadd]
    exact hrows'

/-! ## The whole batch -/

theorem call_eq_ok {rows : Rows} : m.call calls completion data = .ok rows ↔ ∃ finals uids deleteFlags,
    data ≠ [] ∧ m.allScores calls completion (m.makeInputs {} data) = .ok finals ∧
    m.collectUids .empty (data.zip finals) = .ok uids ∧ m.deleteFlags uids = .ok deleteFlags ∧
    m.makeRows (allKeys finals) deleteFlags {} (data.zip
      (((m.makeInputs {} data).map RewardInput.overlongFilterFlag).zip finals)) = .ok rows := by
  unfold call
  constructor
  · intro h
    obtain ⟨inputs, hinputs, h⟩ := bind_eq_ok.mp h
    obtain ⟨hne, rfl⟩ := rewardInputs_eq_ok.mp hinputs
    obtain ⟨finals, hfinals, h⟩ := bind_eq_ok.mp h
    obtain ⟨uids, huids, h⟩ := bind_eq_ok.mp h
    obtain ⟨deleteFlags, hflags, h⟩ := bind_eq_ok.mp h
    exact ⟨finals, uids, deleteFlags, hne, hfinals, huids, hflags, h⟩
  · rintro ⟨finals, uids, deleteFlags, hne, hfinals, huids, hflags, h⟩
    rw [rewardInputs_eq_ok.mpr ⟨hne, rfl⟩, ok_bind, hfinals, ok_bind, huids, ok_bind, hflags]
    exact h

/-- The loop reads the samples with their own flags. -/
theorem zip_withFlag :
    data.zip (((m.makeInputs {} data).map RewardInput.overlongFilterFlag).zip finals) =
      (data.zip finals).map withFlag := by
  have hflags : (m.makeInputs {} data).map RewardInput.overlongFilterFlag =
      data.map fun item => (getRewardInput item).overlongFilterFlag := by
    have hinputs := m.makeInputs_spec data
    have hmap : List.Forall₂ (fun (item : DataItem × Nat) flag => (getRewardInput item.1).overlongFilterFlag = flag)
        data.zipIdx ((m.makeInputs {} data).map RewardInput.overlongFilterFlag) := by
      rw [List.forall₂_map_right_iff]
      exact hinputs.imp fun item input h => h.filter.symm
    have heq : (data.zipIdx.map Prod.fst).map (fun item => (getRewardInput item).overlongFilterFlag) =
        (m.makeInputs {} data).map RewardInput.overlongFilterFlag := by
      rw [List.map_map]
      exact Eq.mp (congrFun (congrFun List.forall₂_eq_eq_eq _) _) (List.forall₂_map_left_iff.mpr hmap)
    rw [← heq, List.zipIdx_map_fst]
  rw [hflags]
  clear hflags
  induction data generalizing finals with
  | nil => rfl
  | cons item data ih =>
    cases finals with
    | nil => rfl
    | cons f finals =>
      rw [List.map_cons, List.zip_cons_cons, List.zip_cons_cons, List.zip_cons_cons, List.map_cons, ih]
      rfl

theorem countersFor_zero (finals : List Score) : CountersFor m data pattern finals 0 fun _ => {} :=
  fun _ _ => ⟨rfl, fun _ h => (by cases h)⟩

theorem mem_samples {sample : (DataItem × Score) × Nat} (h : sample ∈ (data.zip finals).zipIdx) :
    data[sample.2]? = some sample.1.1 ∧ finals[sample.2]? = some sample.1.2 :=
  List.getElem?_zip_eq_some.mp (List.mem_zipIdx_iff_getElem?.mp h)

theorem getElem?_samples {f : Score} (hitem : data[p]? = some item) (hf : finals[p]? = some f) :
    (data.zip finals).zipIdx[p]? = some ((item, f), p) := by
  have hzip : (data.zip finals)[p]? = some (item, f) := List.getElem?_zip_eq_some.mpr ⟨hitem, hf⟩
  rw [List.getElem?_zipIdx, hzip, Nat.zero_add]
  rfl

/-- The scores behind all calls are those of the pattern. -/
theorem allKnown_of_allScores (hfollows : m.Follows data pattern calls)
    (h : m.allScores calls completion (m.makeInputs {} data) = .ok finals) :
    AllKnown m calls data pattern finals ∧ ∀ p item, data[p]? = some item →
      (pattern.computeScore p = .error ∨ pattern.computeScore p = .scored) ∧
      (m.isAsked data p item → pattern.returns p = true) := by
  obtain ⟨hlength, hscores⟩ := allScores_scores hfollows h
  refine ⟨⟨hlength, fun p item f hitem hf => ?_⟩, fun p item hitem => ?_⟩
  · obtain ⟨f', hf', hsample⟩ := hscores p item hitem
    rw [hf] at hf'
    cases hf'
    exact (hsample.known hfollows hitem).1
  · obtain ⟨f, -, hsample⟩ := hscores p item hitem
    exact ⟨(hsample.known hfollows hitem).2, hsample.returned⟩

/-- The prompts with several answers, when they are all scored. -/
theorem Safe.deleteFlags_isOk (h : m.Safe data pattern) (hall : AllKnown m calls data pattern finals) :
    ∃ uids deleteFlags, m.collectUids .empty (data.zip finals) = .ok uids ∧ m.deleteFlags uids = .ok deleteFlags := by
  obtain ⟨uids, huids⟩ := m.collectUids_isOk .empty (data.zip finals) fun sample hmem hmllm => by
    obtain ⟨p, hp⟩ := List.mem_iff_getElem?.mp hmem
    obtain ⟨hitem, hf⟩ := List.getElem?_zip_eq_some.mp hp
    exact (hall.known p _ _ hitem hf).answered (h.prompts p _ hitem hmllm).1 hmllm
  obtain ⟨-, hcount, hkeys⟩ := collectUids_ok huids
  have hfst : (data.zip finals).map Prod.fst = data := List.map_fst_zip (Nat.le_of_eq hall.length.symm)
  rw [hfst] at hcount hkeys
  obtain ⟨deleteFlags, hflags⟩ := (m.deleteFlags_isOk_iff uids).mpr fun uid huid => by
    rw [hcount uid]
    have hne := ((hkeys uid).mp huid).resolve_left List.not_mem_nil
    obtain ⟨item, hmem⟩ := List.exists_mem_of_ne_nil _ hne
    obtain ⟨hmem, hitem⟩ := List.mem_filter.mp hmem
    obtain ⟨hmllm, heq⟩ := of_decide_eq_true hitem
    obtain ⟨p, hp⟩ := List.mem_iff_getElem?.mp hmem
    rw [← heq, (h.prompts p item hp hmllm).2]
    exact Nat.zero_add _
  exact ⟨uids, deleteFlags, huids, hflags⟩

theorem rowValue_acc {keys : List String} {deleteFlags : List (String × Bool)} {f r : Score} {v : Value}
    (hr : RowFor f r) (h : r.get? "acc_score" = some v) : rowValue (filled keys deleteFlags item r) "acc" = some v := by
  unfold rowValue filled
  rw [if_neg (by decide), if_pos rfl, get?_fillKeys, (isSome_deleted _ hr.rewardScore).2.1, h]
  rfl

/-- The rows of a safe batch stay with their samples. -/
theorem Safe.rowsStay (h : m.Safe data pattern) (hfollows : m.Follows data pattern calls) :
    m.RowsStay calls completion data pattern := by
  obtain ⟨finals, hfinals⟩ := allScores_isOk completion hfollows (fun p item hitem => by
    have hcomes := hfollows.computeScore p item hitem
    rcases h.answered p item hitem with houtcome | houtcome
    · rw [houtcome] at hcomes
      obtain ⟨s, hs, -⟩ := hcomes
      exact ⟨s, hs⟩
    · rw [houtcome] at hcomes
      obtain ⟨s, hs, -⟩ := hcomes
      exact ⟨s, hs⟩) h.returned
  obtain ⟨hall, -⟩ := allKnown_of_allScores hfollows hfinals
  obtain ⟨uids, deleteFlags, huids, hflags⟩ := h.deleteFlags_isOk hall
  obtain ⟨rows, hrows⟩ := h.makeRows_isOk (allKeys finals) deleteFlags {} hfollows
    hall List.drop_zero (countersFor_zero finals)
  obtain ⟨made, rewards, hmade, hrewards, htensor, hextra⟩ :=
    makeRows_rows hall List.drop_zero (countersFor_zero finals) hrows
  have hcolumns := columns_of_rows hall (fun sample hmem => mem_samples hmem) hmade (Columns.empty _)
  rw [List.nil_append, show made.foldl appendExtraInfo .empty = rows.rewardExtraInfo from hextra.symm] at hcolumns
  obtain ⟨scores, results, groups, hscores, hresults, hgroups, hflatten⟩ := allScores_eq_ok.mp hfinals
  -- the row of each sample alone
  obtain ⟨owns, howns, hsame⟩ := exists_between hmade
    (P := fun sample own =>
      m.ownRow calls data (allKeys finals) deleteFlags sample.2 sample.1.1 sample.1.2 = .ok own)
    (Q := fun own row => row.get? "acc" = none ∧ own.rewardExtraInfo = appendExtraInfo .empty row ∧
      ∃ x, row.get? "reward_score" = some (.num x) ∧ own.rewardTensor = [x]) (by
      intro sample hmem row hrow
      obtain ⟨counters, counters', r, hcounters, hr, rfl⟩ := hrow
      obtain ⟨hitem, hf⟩ := mem_samples hmem
      obtain ⟨counters'', own', r', hr', hown, -⟩ := h.rowScore hfollows hall hcounters hitem hf
        (getRewardInput sample.1.1).overlongFilterFlag
      rw [hr] at hr'
      cases hr'
      obtain ⟨-, hrowFor, -⟩ := row_step hall hcounters hitem hf hr
      obtain ⟨x, own, hx, hadd, -, hreward, hinfo⟩ := addRow_of_rowScore (allKeys finals)
        deleteFlags (⟨fun _ => ownCounter calls (m.firstOf data sample.2 sample.1.1)
          (sample.2 - m.firstOf data sample.2 sample.1.1), [], .empty, []⟩) hown hrowFor
      exact ⟨own, hadd, (filled_keys deleteFlags hall hitem hf hrowFor).1, hinfo, x, hx, hreward⟩)
  refine ⟨m.makeInputs {} data, scores, results, finals, deleteFlags, rows, owns, ?_⟩
  refine ⟨rewardInputs_eq_ok.mpr ⟨h.nonempty, rfl⟩, hscores, hresults, processInputsExternalmodel_results hresults,
    hflatten ▸ processScoring_scores hgroups, ?_, howns, ?_, ?_, ?_⟩
  · exact call_eq_ok.mpr ⟨finals, uids, deleteFlags, h.nonempty, hfinals, huids, hflags, zip_withFlag ▸ hrows⟩
  · rw [htensor]
    refine forall₂_trans hsame hrewards ?_
    rintro own row x ⟨-, -, y, hy, hreward⟩ hx
    rw [hy] at hx
    cases hx
    exact hreward
  · intro key values hvalues
    refine forall₂_trans hsame (hcolumns.column key values hvalues) ?_
    rintro own row v ⟨hacc, hinfo, -⟩ hv
    rw [hinfo, get?_appendExtraInfo hacc, hv]
    rfl
  · intro p item hitem hjudged hscored
    obtain ⟨f, hf⟩ : ∃ f, finals[p]? = some f := by
      refine ⟨_, List.getElem?_eq_getElem ?_⟩
      rw [hall.length]
      exact (List.getElem?_eq_some_iff.mp hitem).1
    obtain ⟨row, hrow, counters, counters', r, hcounters, hr, rfl⟩ :=
      getElem?_of_forall₂ hmade (getElem?_samples hitem hf)
    obtain ⟨counters'', own', r', hr', -, hgroup⟩ := h.rowScore hfollows hall hcounters hitem hf
      (getRewardInput item).overlongFilterFlag
    rw [hr] at hr'
    cases hr'
    obtain ⟨xs, judgement, x, hcall, hx, hacc⟩ := hgroup hjudged hscored
    obtain ⟨-, hrowFor, -⟩ := row_step hall hcounters hitem hf hr
    have hvalue : rowValue (filled (allKeys finals) deleteFlags item r) "acc" = some (.num x) :=
      rowValue_acc hrowFor hacc
    obtain ⟨accs, haccs⟩ := Option.isSome_iff_exists.mp (hcolumns.complete
      (List.ne_nil_of_mem (List.mem_of_getElem? hrow)) "acc"
      (((filled_keys deleteFlags hall hitem hf hrowFor).2 "acc").mp (by rw [hvalue]; rfl)))
    obtain ⟨v, hv, heq⟩ := getElem?_of_forall₂ (hcolumns.column "acc" accs haccs) hrow
    rw [hvalue] at heq
    cases heq
    exact ⟨accs, xs, judgement, x, haccs, hcall, hx, hv⟩

/-! ## Calls that tell the samples apart -/

/-- Scores that any scorer may return. -/
def anyScore : Score :=
  ⟨[("reward_score", .num 1), ("acc_score", .num 1), ("repetition_penalty", .num 0), ("format", .num 0),
    ("lang_consistency_ratio", .num 0), ("overlong_reward", .num 0), ("overlong", .bool false)], by decide⟩

/-- What a scorer returns that has failed. -/
def anyError : Score := ⟨[("error", .text "error"), ("traceback", .text "traceback")], by decide⟩

/-- Calls with a pattern: a judge has another score for every response that it is asked about. -/
def callsOf (m : RewardManager) (data : List DataItem) (pattern : Pattern) : Calls where
  computeScore p :=
    match pattern.computeScore p with
    | .raises => .error (.runtimeError "scoring failed")
    | .none => .ok none
    | .error => .ok (some anyError)
    | .scored => .ok (some anyScore)
  generalReward p :=
    if pattern.returns p then
      .ok (.nums ((List.range (min m.nSamplesPerPrompt (data.length - p))).map fun r => ((Nat.pair p r : Nat) : ℚ)),
        .none)
    else .error (.runtimeError "the judge failed")
  scoreModel p := if pattern.returns p then .ok (.num 0) else .error (.runtimeError "the model failed")
  processLine p := if pattern.returns p then .ok () else .error (.runtimeError "the model failed")
  processScoring _ := .error (.runtimeError "the scoring failed")

theorem scored_anyScore (method : String) : Scored method anyScore where
  noError := rfl
  noAcc := rfl
  rewardScore := .inl ⟨1, rfl⟩
  accScore := rfl
  answered _ := .inl rfl
  format := ⟨0, rfl⟩
  langConsistencyRatio := ⟨0, rfl⟩
  overlongReward := ⟨0, rfl⟩
  overlong := rfl

theorem returns_ite {α : Type} (returns : Bool) (a : α) (e : PyError) {P : α → Prop} (h : P a) :
    Returns returns (if returns then .ok a else .error e) P := by
  cases returns
  · exact ⟨e, rfl⟩
  · exact ⟨a, rfl, h⟩

theorem callsOf_follows (m : RewardManager) (data : List DataItem) (pattern : Pattern) :
    m.Follows data pattern (m.callsOf data pattern) := by
  refine ⟨fun p item _ => ?_, fun p => ?_, fun p => ?_, fun p => ?_⟩
  · unfold callsOf
    dsimp only
    cases pattern.computeScore p with
    | raises => exact ⟨_, rfl⟩
    | none => rfl
    | error => exact ⟨_, rfl, ⟨_, rfl⟩, rfl, rfl⟩
    | scored => exact ⟨_, rfl, scored_anyScore _⟩
  · exact returns_ite _ _ _ ⟨_, rfl, by rw [List.length_map, List.length_range]⟩
  · exact returns_ite _ _ _ ⟨0, rfl⟩
  · exact returns_ite _ _ _ trivial

/-- A judge's score says which sample it is for. -/
theorem callsOf_generalReward {xs : List ℚ} {judgement : Value} {i : Nat} {x : ℚ}
    (h : (m.callsOf data pattern).generalReward p = .ok (.nums xs, judgement)) (hx : xs[i]? = some x) :
    x = ((Nat.pair p i : Nat) : ℚ) := by
  unfold callsOf at h
  dsimp only at h
  split at h
  · cases h
    rw [List.getElem?_map] at hx
    obtain ⟨r, hr, rfl⟩ := Option.map_eq_some_iff.mp hx
    obtain ⟨hlt, heq⟩ := List.getElem?_eq_some_iff.mp hr
    rw [List.getElem_range] at heq
    rw [heq]
  · cases h

/-- If the rows stay with their samples although the judge's scores tell them apart, the batch is safe. -/
theorem safe_of_rowsStay (h : m.RowsStay (m.callsOf data pattern) completion data pattern) : m.Safe data pattern := by
  have hfollows := callsOf_follows m data pattern
  obtain ⟨inputs, scores, results, finals', deleteFlags', rows, owns, h⟩ := h
  obtain ⟨finals, uids, deleteFlags, hne, hfinals, huids, hflags, hrows⟩ := call_eq_ok.mp h.call_ok
  obtain ⟨hall, houtcome⟩ := allKnown_of_allScores hfollows hfinals
  have hfinalAt : ∀ p item, data[p]? = some item → ∃ f, finals[p]? = some f := fun p item hitem => by
    refine ⟨_, List.getElem?_eq_getElem ?_⟩
    rw [hall.length]
    exact (List.getElem?_eq_some_iff.mp hitem).1
  refine ⟨hne, fun p item hitem => (houtcome p item hitem).1, fun p item hitem => (houtcome p item hitem).2, ?_, ?_⟩
  · intro p item hitem hmllm
    obtain ⟨f, hf⟩ := hfinalAt p item hitem
    obtain ⟨hsome, hcount, hkeys⟩ := collectUids_ok huids
    constructor
    · by_contra hnot
      have hmem : (item, f) ∈ data.zip finals := List.mem_of_getElem? (List.getElem?_zip_eq_some.mpr ⟨hitem, hf⟩)
      have hacc := hsome _ hmem hmllm
      rw [(hall.known p item f hitem hf).unanswered hnot hmllm] at hacc
      cases hacc
    · rw [List.map_fst_zip (Nat.le_of_eq hall.length.symm)] at hcount hkeys
      have hin : item ∈ answersOf data item.uid :=
        List.mem_filter.mpr ⟨List.mem_of_getElem? hitem, decide_eq_true ⟨hmllm, rfl⟩⟩
      have hall' := (m.deleteFlags_isOk_iff uids).mp ⟨deleteFlags, hflags⟩ item.uid
        ((hkeys item.uid).mpr (.inr (List.ne_nil_of_mem hin)))
      rw [hcount item.uid] at hall'
      rw [← hall']
      exact (Nat.zero_add _).symm
  · intro p item hitem hjudged hscored
    obtain ⟨f, hf⟩ := hfinalAt p item hitem
    rw [zip_withFlag] at hrows
    obtain ⟨made, rewards, hmade, -, -, hextra⟩ := makeRows_rows hall List.drop_zero (countersFor_zero finals) hrows
    have hcolumns := columns_of_rows hall (fun sample hmem => mem_samples hmem) hmade (Columns.empty _)
    rw [List.nil_append, show made.foldl appendExtraInfo .empty = rows.rewardExtraInfo from hextra.symm] at hcolumns
    -- the value in the row is that of the leader that the counter has
    obtain ⟨row, hrow, counters, counters', r, hcounters, hr, rfl⟩ :=
      getElem?_of_forall₂ hmade (getElem?_samples hitem hf)
    obtain ⟨-, hrowFor, htaken⟩ := row_step hall hcounters hitem hf hr
    obtain ⟨l, fl, xsl, y, hl, hfl, haccl, hy, hracc⟩ := (htaken hjudged hscored).value
    obtain ⟨accs, xs, judgement, x, haccs, hcall, hx, haccp⟩ := h.judged p item hitem hjudged hscored
    obtain ⟨v, hv, hvalue⟩ := getElem?_of_forall₂ (hcolumns.column "acc" accs haccs) hrow
    rw [rowValue_acc hrowFor hracc] at hvalue
    rw [haccp] at hv
    cases hv
    cases hvalue
    -- and that of its own group
    have hown := callsOf_generalReward hcall hx
    have hltData : l < data.length := by
      rw [← hall.length]
      exact (List.getElem?_eq_some_iff.mp hfl).1
    have hlitem := List.getElem?_eq_getElem hltData
    have hlof := (leader_eq_some m.samples_pos hl).2.1
    have hlmethod : (data[l]).rewardMethod = item.rewardMethod := ((scoredOf_eq hlitem _).mp hlof).1
    obtain ⟨xsl', judgementl, haccl', -, hleads, hnot⟩ :=
      (hall.known l _ fl hlitem hfl).judged (hlmethod ▸ hjudged)
    rw [haccl] at haccl'
    cases haccl'
    have hleadsl : m.leads data l data[l] := by
      by_contra hnotleads
      have hneg := hnot hnotleads y (List.mem_of_getElem? hy)
      rw [hown] at hneg
      have hpos : (0 : ℚ) ≤ ((Nat.pair (m.firstOf data p item) (p - m.firstOf data p item) : Nat) : ℚ) :=
        Nat.cast_nonneg _
      rw [hneg] at hpos
      exact absurd hpos (by decide)
    have hleader := callsOf_generalReward (hleads hleadsl) hy
    rw [hown, Nat.cast_inj, Nat.pair_eq_pair] at hleader
    obtain ⟨hfirst, hplace⟩ := hleader
    rw [← hfirst] at hl
    obtain ⟨-, hzero, -, hrun⟩ := leader_at_distance m.samples_pos ((scoredOf_eq hitem _).mpr ⟨rfl, hscored⟩) hl
      hplace.symm
    exact ⟨hzero, hrun⟩

/-- Whatever calls with the pattern return, the rows stay with their samples, exactly if the batch is safe. -/
theorem rows_stay_iff (m : RewardManager) (completion : Completion) (data : List DataItem) (pattern : Pattern) :
    (∀ calls, m.Follows data pattern calls → m.RowsStay calls completion data pattern) ↔ m.Safe data pattern := by
  constructor
  · intro h
    exact safe_of_rowsStay (h _ (callsOf_follows m data pattern))
  · intro h calls hfollows
    exact h.rowsStay hfollows

/-- A manager for prompts with two samples. -/
def twoSamples : RewardManager where
  nSamplesPerPrompt := 2
  samples_pos := Nat.two_pos
  qwen72bInstHost := ["inst"]
  inst_ne := by decide
  qwen72bVlHost := ["vl"]
  vl_ne := by decide
  yuanm32Host := ["m32"]
  m32_ne := by decide
  bertHost := "bert"
  processRewardHost := ["process"]
  process_ne := by decide
  llmProcessMethodFlag := []
  textAnswer _ := false

/-- The results of a chunk in the order of the questions. -/
def inTurn : Completion := ⟨fun _ results => results, fun _ _ => List.Perm.refl _⟩

/-- A sample that a model scores, and one that it does not. -/
def modelBatch : List DataItem :=
  [⟨"Paris".toList, "rag_frames", "question"⟩, ⟨"4".toList, "llm_math", "sum"⟩]

/-- Two prompts for the judge. -/
def judgedBatch : List DataItem :=
  [⟨"first".toList, "llm_general", "one"⟩, ⟨"second".toList, "llm_general", "one"⟩,
    ⟨"third".toList, "llm_general", "two"⟩, ⟨"fourth".toList, "llm_general", "two"⟩]

/-- A model's call that raises takes the whole batch with it, and a sample that could not be scored shifts the
scores of those behind it. -/
theorem rows_do_not_stay :
    ¬ twoSamples.RowsStay (twoSamples.callsOf modelBatch ⟨fun _ => .scored, fun p => p ≠ 0⟩) inTurn modelBatch
        ⟨fun _ => .scored, fun p => p ≠ 0⟩ ∧
      ¬ twoSamples.RowsStay (twoSamples.callsOf judgedBatch
          ⟨fun p => if p = 0 then .error else .scored, fun _ => true⟩) inTurn judgedBatch
        ⟨fun p => if p = 0 then .error else .scored, fun _ => true⟩ := by
  constructor
  · intro h
    have hreturned := (safe_of_rowsStay h).returned 0 _ rfl (by unfold isAsked; decide)
    exact absurd hreturned (by decide)
  · intro h
    have hrun := ((safe_of_rowsStay h).groups 1 _ rfl (by decide) (by decide)).2 0 (by decide) (by decide)
    exact absurd hrun (by decide)

end Yuan.Reward.RewardManager
