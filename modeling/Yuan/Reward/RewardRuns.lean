import Mathlib.Data.Nat.Pairing
import Yuan.Reward.RewardRows

/-!
# Rows and their samples

When the rows of a batch are those that the samples get alone: every call that the batch depends on returns, and
no failure comes between a judged sample and the one that leads its group.
-/

namespace Yuan.Reward.RewardManager

/-! ## What stays in place -/

/-- A sample of the method that was scored. -/
def scoredOf (data : List DataItem) (pattern : Pattern) (method : String) (p : Nat) : Bool :=
  ofMethod data method p && decide (pattern.computeScore p = .scored)

section

variable (m : RewardManager) (calls : Calls) (completion : Completion) (data : List DataItem) (pattern : Pattern)

/-- The sample that leads the group of the one at `p`: with it the judge was asked. -/
def firstOf (p : Nat) (item : DataItem) : Nat :=
  (leader m.nSamplesPerPrompt (ofMethod data item.rewardMethod) (p + 1)).getD p

/-- A counter in front of a place of the group that starts at `first`. -/
def ownCounter (first place : Nat) : ResultCounter :=
  match calls.generalReward first with
  | .ok (accScores, judgement) => { idx := (place : Int) - 1, accScores, llmGeneralJudgement := judgement }
  | .error _ => {}

/-- The row of a sample alone, with the scores of its own group. -/
def ownRow (keys : List String) (deleteFlags : List (String × Bool)) (p : Nat) (item : DataItem) (score : Score) :
    Except PyError Rows :=
  m.addRow keys deleteFlags
    { counters := fun _ => ownCounter calls (m.firstOf data p item) (p - m.firstOf data p item) }
    item (getRewardInput item).overlongFilterFlag score

/-- A batch whose rows stay with their samples. -/
structure InPlace (inputs : List RewardInput) (scores : List (Option Score)) (results : List Question)
    (finals : List Score) (deleteFlags : List (String × Bool)) (rows : Rows) (owns : List Rows) : Prop where
  inputs_ok : m.rewardInputs data = .ok inputs
  scores_ok : step1Process calls inputs = .ok scores
  results_ok : processInputsExternalmodel calls m.llmProcessMethodFlag completion inputs scores = .ok results
  /-- One result for each input, in order. -/
  answers : List.Forall₂ (fun q r => answer calls m.llmProcessMethodFlag q = some r.plain)
    (questionsOf inputs scores) results
  scorings : List.Forall₂ (ScoringOf calls) results finals
  call_ok : m.call calls completion data = .ok rows
  alone : List.Forall₂ (fun sample own =>
      m.ownRow calls data (allKeys finals) deleteFlags sample.2 sample.1.1 sample.1.2 = .ok own)
    (data.zip finals).zipIdx owns
  rewards : List.Forall₂ (fun own reward => own.rewardTensor = [reward]) owns rows.rewardTensor
  /-- One entry for each sample in every list. -/
  extraInfo : ∀ key values, rows.rewardExtraInfo.get? key = some values →
    List.Forall₂ (fun own value => own.rewardExtraInfo.get? key = some [value]) owns values
  /-- The score that a sample's own group has for it. -/
  judged : ∀ p item, data[p]? = some item → item.rewardMethod ∈ generalMethods →
    pattern.computeScore p = .scored → ∃ accs xs judgement x, rows.rewardExtraInfo.get? "acc" = some accs ∧
      calls.generalReward (m.firstOf data p item) = .ok (.nums xs, judgement) ∧
      xs[p - m.firstOf data p item]? = some x ∧ accs[p]? = some (.num x)

/-- The rows of the batch stay with their samples. -/
def RowsStay : Prop :=
  ∃ inputs scores results finals deleteFlags rows owns,
    m.InPlace calls completion data pattern inputs scores results finals deleteFlags rows owns

/-- No call that the batch depends on fails. -/
structure Safe : Prop where
  nonempty : data ≠ []
  answered : ∀ p item, data[p]? = some item → pattern.computeScore p = .error ∨ pattern.computeScore p = .scored
  returned : ∀ p item, data[p]? = some item → m.isAsked data p item → pattern.returns p = true
  prompts : ∀ p item, data[p]? = some item → item.rewardMethod ∈ ["mllm_normal", "mllm_choice"] →
    pattern.computeScore p = .scored ∧ (answersOf data item.uid).length = m.nSamplesPerPrompt
  /-- From the one that leads the group on, all samples are scored ones of the method, and the scored ones before
  it make whole groups. -/
  groups : ∀ p item, data[p]? = some item → item.rewardMethod ∈ generalMethods →
    pattern.computeScore p = .scored →
      countBefore (scoredOf data pattern item.rewardMethod) (m.firstOf data p item) % m.nSamplesPerPrompt = 0 ∧
      ∀ q, m.firstOf data p item ≤ q → q ≤ p → scoredOf data pattern item.rewardMethod q = true

end

variable {m : RewardManager} {calls : Calls} {completion : Completion} {data : List DataItem} {pattern : Pattern}
  {p : Nat} {item : DataItem} {f : Score} {counters : String → ResultCounter} {finals : List Score}
  {overlongFilterFlag : Bool} {deleteFlags : List (String × Bool)}

/-! ## What is known of a score -/

/-- The score of a sample behind all calls that follow the pattern. -/
structure Known (m : RewardManager) (calls : Calls) (data : List DataItem) (pattern : Pattern) (p : Nat)
    (item : DataItem) (f : Score) : Prop where
  noAcc : f.get? "acc" = none
  ready : pattern.computeScore p = .scored → Ready item.rewardMethod f
  failed : pattern.computeScore p ≠ .scored → isScored f = false
  judged : item.rewardMethod ∈ generalMethods → ∃ xs judgement,
    f.get? "acc_score" = some (.nums xs) ∧ f.get? "llm_general_judgement" = some judgement ∧
      (m.leads data p item → calls.generalReward p = .ok (.nums xs, judgement)) ∧
      (¬ m.leads data p item → ∀ x ∈ xs, x = -42)
  answered : pattern.computeScore p = .scored → item.rewardMethod ∈ ["mllm_normal", "mllm_choice"] →
    f.get? "acc_score" = some (.num 1) ∨ f.get? "acc_score" = some (.num (-1))
  unanswered : pattern.computeScore p ≠ .scored → item.rewardMethod ∈ ["mllm_normal", "mllm_choice"] →
    f.get? "acc_score" = none

theorem SampleScore.known (hfollows : m.Follows data pattern calls) (hitem : data[p]? = some item)
    (h : SampleScore m calls data pattern p item f) :
    Known m calls data pattern p item f ∧ (pattern.computeScore p = .error ∨ pattern.computeScore p = .scored) := by
  obtain ⟨s, hs, hfinal⟩ := h.scored
  have hcomes := hfollows.computeScore p item hitem
  rw [hs] at hcomes
  have hnoAcc : f.get? "acc" = s.get? "acc" := hfinal.same _ (by decide)
  have hunjudged : item.rewardMethod ∈ ["mllm_normal", "mllm_choice"] → f.get? "acc_score" = s.get? "acc_score" := by
    intro hmem
    apply hfinal.unjudged
    · rcases List.mem_pair.mp hmem with heq | heq <;> rw [heq] <;> decide
    · rcases List.mem_pair.mp hmem with heq | heq <;> rw [heq] <;> decide
  have hjudged : item.rewardMethod ∈ generalMethods → ∃ xs judgement,
      f.get? "acc_score" = some (.nums xs) ∧ f.get? "llm_general_judgement" = some judgement ∧
        (m.leads data p item → calls.generalReward p = .ok (.nums xs, judgement)) ∧
        (¬ m.leads data p item → ∀ x ∈ xs, x = -42) := by
    intro hmem
    obtain ⟨hjudgement, hleads, hnot⟩ := hfinal.judged hmem
    by_cases hlead : m.leads data p item
    · obtain ⟨acc, judgement, hcall, hacc, hgiven⟩ := hleads hlead
      obtain ⟨-, xs, hxs, -⟩ := Returns.ok (hfollows.generalReward p) hcall
      subst hxs
      exact ⟨xs, judgement, hacc, hgiven, fun _ => hcall, fun h => absurd hlead h⟩
    · obtain ⟨judgement, hgiven⟩ := Option.isSome_iff_exists.mp hjudgement
      obtain ⟨xs, hacc, hall⟩ := hnot hlead
      exact ⟨xs, judgement, hacc, hgiven, fun h => absurd h hlead, fun _ => hall⟩
  cases houtcome : pattern.computeScore p with
  | raises =>
    rw [houtcome] at hcomes
    obtain ⟨e, he⟩ := hcomes
    cases he
  | none =>
    rw [houtcome] at hcomes
    cases hcomes
  | error =>
    rw [houtcome] at hcomes
    obtain ⟨s', hs', hfailed⟩ := hcomes
    cases hs'
    refine ⟨⟨?_, fun h => ?_, fun _ => ?_, hjudged, fun h => ?_, fun _ hmem => ?_⟩, .inl rfl⟩
    · rw [hnoAcc]
      exact hfailed.noAcc
    · rw [houtcome] at h
      cases h
    · obtain ⟨text, htext⟩ := hfailed.error
      exact isScored_eq_false_of_failed (by rw [hfinal.same _ (by decide)]; exact htext)
    · rw [houtcome] at h
      cases h
    · rw [hunjudged hmem]
      exact hfailed.noScore
  | scored =>
    rw [houtcome] at hcomes
    obtain ⟨s', hs', hscored⟩ := hcomes
    cases hs'
    refine ⟨⟨?_, fun _ => hfinal.ready hscored, fun h => absurd houtcome h, hjudged, fun _ hmem => ?_,
      fun h => absurd houtcome h⟩, .inr rfl⟩
    · rw [hnoAcc]
      exact hscored.noAcc
    · rw [hunjudged hmem]
      exact hscored.answered hmem

/-- A judged sample is scored if its scorer has scored it. -/
theorem Known.isScored (h : Known m calls data pattern p item f) (hscored : pattern.computeScore p = .scored)
    (hjudged : item.rewardMethod ∈ generalMethods) : isScored f = true :=
  (h.ready hscored).isScored_iff.mpr ((h.ready hscored).judged hjudged).1

/-! ## The counters -/

/-- A counter has counted the scored samples of its method, and holds the scores of the last that led a group. -/
def CountersFor (m : RewardManager) (data : List DataItem) (pattern : Pattern) (finals : List Score) (p : Nat)
    (counters : String → ResultCounter) : Prop :=
  ∀ method ∈ generalMethods,
    (counters method).idx = (countBefore (scoredOf data pattern method) p : Int) - 1 ∧
    ∀ l, leader m.nSamplesPerPrompt (scoredOf data pattern method) p = some l → ∃ f, finals[l]? = some f ∧
      f.get? "acc_score" = some (counters method).accScores ∧
      f.get? "llm_general_judgement" = some (counters method).llmGeneralJudgement

theorem repIdx_eq {method : String} (h : CountersFor m data pattern finals p counters)
    (hmethod : method ∈ generalMethods) :
    m.repIdx (counters method) = countBefore (scoredOf data pattern method) p % m.nSamplesPerPrompt := by
  unfold repIdx
  rw [(h method hmethod).1, Int.sub_add_cancel]
  omega

theorem scoredOf_eq (hitem : data[p]? = some item) (method : String) :
    scoredOf data pattern method p = true ↔ item.rewardMethod = method ∧ pattern.computeScore p = .scored := by
  unfold scoredOf ofMethod
  rw [hitem, Bool.and_eq_true, decide_eq_true_eq, decide_eq_true_eq, Option.map_some, Option.some.injEq]

section

variable (h : CountersFor m data pattern finals p counters)
include h

/-- With the next sample the counter holds the scores of its leader. -/
theorem held_leader {acc judgement : Value} (hitem : data[p]? = some item) (hf : finals[p]? = some f)
    (hjudged : item.rewardMethod ∈ generalMethods) (hscored : pattern.computeScore p = .scored)
    (hacc : f.get? "acc_score" = some acc) (hjudgement : f.get? "llm_general_judgement" = some judgement) :
    ∃ l fl, leader m.nSamplesPerPrompt (scoredOf data pattern item.rewardMethod) (p + 1) = some l ∧
      finals[l]? = some fl ∧ fl.get? "acc_score" = some (m.held (counters item.rewardMethod) acc judgement).accScores ∧
      fl.get? "llm_general_judgement" =
        some (m.held (counters item.rewardMethod) acc judgement).llmGeneralJudgement := by
  have hof : scoredOf data pattern item.rewardMethod p = true := (scoredOf_eq hitem _).mpr ⟨rfl, hscored⟩
  unfold held
  rw [repIdx_eq h hjudged, leader]
  by_cases hzero : countBefore (scoredOf data pattern item.rewardMethod) p % m.nSamplesPerPrompt = 0
  · rw [if_pos ⟨hof, hzero⟩, if_pos hzero, if_pos hzero]
    exact ⟨p, f, rfl, hf, hacc, hjudgement⟩
  · rw [if_neg fun hlead => hzero hlead.2, if_neg hzero, if_neg hzero]
    have hpos : 0 < countBefore (scoredOf data pattern item.rewardMethod) p := by
      apply Nat.pos_of_ne_zero
      intro hnone
      rw [hnone] at hzero
      exact hzero rfl
    obtain ⟨l, hl⟩ := Option.isSome_iff_exists.mp (leader_isSome (n := m.nSamplesPerPrompt) hpos)
    obtain ⟨fl, hfl, haccs, hjudgements⟩ := (h _ hjudged).2 l hl
    exact ⟨l, fl, hl, hfl, haccs, hjudgements⟩

/-- The counters behind a judged sample. -/
theorem CountersFor.judged {acc judgement : Value} (hitem : data[p]? = some item) (hf : finals[p]? = some f)
    (hjudged : item.rewardMethod ∈ generalMethods) (hscored : pattern.computeScore p = .scored)
    (hacc : f.get? "acc_score" = some acc) (hjudgement : f.get? "llm_general_judgement" = some judgement) :
    CountersFor m data pattern finals (p + 1) (Function.update counters item.rewardMethod
      (m.held (counters item.rewardMethod) acc judgement)) := by
  intro method hmethod
  by_cases heq : method = item.rewardMethod
  · subst heq
    have hof : scoredOf data pattern item.rewardMethod p = true := (scoredOf_eq hitem _).mpr ⟨rfl, hscored⟩
    rw [Function.update_self, countBefore_succ hof]
    obtain ⟨l, fl, hl, hfl, haccs, hjudgements⟩ := held_leader h hitem hf hjudged hscored hacc hjudgement
    refine ⟨?_, fun l' hl' => ?_⟩
    · unfold held
      dsimp only
      rw [(h _ hjudged).1]
      omega
    · rw [hl] at hl'
      cases hl'
      exact ⟨fl, hfl, haccs, hjudgements⟩
  · rw [Function.update_of_ne heq]
    have hof : ¬ scoredOf data pattern method p = true := fun hof =>
      heq ((scoredOf_eq hitem _).mp hof).1.symm
    rw [countBefore_succ_of_not hof, leader, if_neg fun hlead => hof hlead.1]
    exact h method hmethod

/-- The counters behind any other sample. -/
theorem CountersFor.other (hitem : data[p]? = some item)
    (hnot : ¬ (item.rewardMethod ∈ generalMethods ∧ pattern.computeScore p = .scored)) :
    CountersFor m data pattern finals (p + 1) counters := by
  intro method hmethod
  have hof : ¬ scoredOf data pattern method p = true := by
    intro hof
    obtain ⟨heq, hscored⟩ := (scoredOf_eq hitem _).mp hof
    exact hnot ⟨heq ▸ hmethod, hscored⟩
  rw [countBefore_succ_of_not hof, leader, if_neg fun hlead => hof hlead.1]
  exact h method hmethod

end

/-- The scores of a batch whose calls follow the pattern. -/
structure AllKnown (m : RewardManager) (calls : Calls) (data : List DataItem) (pattern : Pattern)
    (finals : List Score) : Prop where
  length : finals.length = data.length
  known : ∀ p item f, data[p]? = some item → finals[p]? = some f → Known m calls data pattern p item f

theorem at_nums_ok {xs : List ℚ} {i : Nat} {v : Value} (h : Value.at (.nums xs) i = .ok v) :
    ∃ x, xs[i]? = some x ∧ v = .num x := by
  unfold Value.at at h
  dsimp only at h
  split at h
  case h_1 x hx => exact ⟨x, hx, (Except.ok.inj h).symm⟩
  case h_2 => cases h

/-- What a judged sample takes out of the scores of its leader. -/
structure Taken (m : RewardManager) (data : List DataItem) (pattern : Pattern) (finals : List Score) (p : Nat)
    (item : DataItem) (r : Score) : Prop where
  value : ∃ l fl xs x, leader m.nSamplesPerPrompt (scoredOf data pattern item.rewardMethod) (p + 1) = some l ∧
    finals[l]? = some fl ∧ fl.get? "acc_score" = some (.nums xs) ∧
    xs[countBefore (scoredOf data pattern item.rewardMethod) p % m.nSamplesPerPrompt]? = some x ∧
    r.get? "acc_score" = some (.num x)

/-- A row that is made keeps the counters. -/
theorem row_step {counters' : String → ResultCounter} {r : Score} (hall : AllKnown m calls data pattern finals)
    (h : CountersFor m data pattern finals p counters) (hitem : data[p]? = some item) (hf : finals[p]? = some f)
    (hr : m.rowScore counters item overlongFilterFlag f = .ok (counters', r)) :
    CountersFor m data pattern finals (p + 1) counters' ∧ RowFor f r ∧
      (item.rewardMethod ∈ generalMethods → pattern.computeScore p = .scored →
        Taken m data pattern finals p item r) := by
  have hknown := hall.known p item f hitem hf
  by_cases hscored : pattern.computeScore p = .scored
  · have hready := hknown.ready hscored
    by_cases hjudged : item.rewardMethod ∈ generalMethods
    · have hisScored := hknown.isScored hscored hjudged
      obtain ⟨xs, judgement, hacc, hjudgement, -, -⟩ := hknown.judged hjudged
      obtain ⟨l, fl, hl, hfl, haccs, -⟩ := held_leader h hitem hf hjudged hscored hacc hjudgement
      -- the leader's scores are a list of numbers
      have hlt : l < data.length := by
        rw [← hall.length]
        exact (List.getElem?_eq_some_iff.mp hfl).1
      have hlitem : ∃ litem, data[l]? = some litem ∧ litem.rewardMethod = item.rewardMethod := by
        refine ⟨data[l], List.getElem?_eq_getElem hlt, ?_⟩
        exact ((scoredOf_eq (List.getElem?_eq_getElem hlt) _).mp (leader_eq_some m.samples_pos hl).2.1).1
      obtain ⟨litem, hlitem, hmethod⟩ := hlitem
      obtain ⟨xsl, -, haccl, -⟩ := (hall.known l litem fl hlitem hfl).judged (hmethod ▸ hjudged)
      rw [haccs] at haccl
      have hheld := Option.some.inj haccl
      obtain ⟨v, hv⟩ := rowScore_judged_ok hready hisScored hjudged hacc hjudgement hr
      rw [hheld] at hv
      obtain ⟨x, hx, rfl⟩ := at_nums_ok hv
      obtain ⟨r', hrowFor, hraccs, hrow⟩ := rowScore_judged (m := m) hready hisScored hjudged hacc hjudgement
        overlongFilterFlag (m.repIdx (counters item.rewardMethod)) _ x
      have heq := hrow counters rfl rfl (by rw [hheld]; exact hv)
      rw [hr] at heq
      cases heq
      rw [repIdx_eq h hjudged] at hx
      refine ⟨h.judged hitem hf hjudged hscored hacc hjudgement, hrowFor, fun _ _ => ?_⟩
      exact ⟨l, fl, xsl, x, hl, hfl, by rw [haccs, hheld], hx, hraccs⟩
    · have hnext := h.other hitem fun hboth => hjudged hboth.1
      cases hisScored : isScored f with
      | true =>
        obtain ⟨r', hrowFor, hrow⟩ := rowScore_other (m := m) hready hisScored hjudged overlongFilterFlag
        rw [hrow] at hr
        cases hr
        exact ⟨hnext, hrowFor, fun hmem => absurd hmem hjudged⟩
      | false =>
        obtain ⟨hrowFor, hrow⟩ := rowScore_failed (m := m) hisScored
        rw [hrow] at hr
        cases hr
        exact ⟨hnext, hrowFor, fun hmem => absurd hmem hjudged⟩
  · obtain ⟨hrowFor, hrow⟩ := rowScore_failed (m := m) (hknown.failed hscored)
    rw [hrow] at hr
    cases hr
    exact ⟨h.other hitem fun hboth => hscored hboth.2, hrowFor, fun _ h => absurd h hscored⟩

/-! ## The loop over the rows -/

/-- The row with the deletions, and with a value for every key. -/
def filled (keys : List String) (deleteFlags : List (String × Bool)) (item : DataItem) (r : Score) : Score :=
  fillKeys keys (deleted (deleteFlags.lookup item.uid = some true) r)

/-- A row that has its reward is added to the others. -/
theorem addRow_of_rowScore (keys : List String) (deleteFlags : List (String × Bool)) (rows : Rows) {r : Score}
    {counters' : String → ResultCounter} (h : m.rowScore rows.counters item overlongFilterFlag f = .ok (counters', r))
    (hr : RowFor f r) :
    ∃ x rows', (filled keys deleteFlags item r).get? "reward_score" = some (.num x) ∧
      m.addRow keys deleteFlags rows item overlongFilterFlag f = .ok rows' ∧ rows'.counters = counters' ∧
      rows'.rewardTensor = rows.rewardTensor ++ [x] ∧
      rows'.rewardExtraInfo = appendExtraInfo rows.rewardExtraInfo (filled keys deleteFlags item r) := by
  obtain ⟨x, hx⟩ := (isSome_deleted (deleteFlags.lookup item.uid = some true) hr.rewardScore).1
  have hget : Score.getItem (deleted (deleteFlags.lookup item.uid = some true) r) "reward_score" = .ok (.num x) := by
    unfold Score.getItem
    rw [hx]
  refine ⟨x, {
      counters := counters'
      rewardTensor := rows.rewardTensor ++ [x]
      rewardExtraInfo := appendExtraInfo rows.rewardExtraInfo (filled keys deleteFlags item r)
      deleteSetMllm := if deleteFlags.lookup item.uid = some true then rows.deleteSetMllm.insert item.uid
        else rows.deleteSetMllm }, ?_, ?_, rfl, rfl, rfl⟩
  · unfold filled
    rw [get?_fillKeys, hx]
    rfl
  · rw [addRow_eq, h, ok_bind, hget]
    rfl

theorem rowScore_of_addRow {keys : List String} {rows rows' : Rows}
    (h : m.addRow keys deleteFlags rows item overlongFilterFlag f = .ok rows') :
    ∃ r, m.rowScore rows.counters item overlongFilterFlag f = .ok r := by
  rw [addRow_eq] at h
  obtain ⟨r, hr, -⟩ := bind_eq_ok.mp h
  exact ⟨r, hr⟩

/-- The row of the sample at `p`, as the loop makes it. -/
def RowAt (m : RewardManager) (data : List DataItem) (pattern : Pattern) (finals : List Score) (keys : List String)
    (deleteFlags : List (String × Bool)) (p : Nat) (sample : DataItem × Score) (row : Score) : Prop :=
  ∃ counters counters' r, CountersFor m data pattern finals p counters ∧
    m.rowScore counters sample.1 (getRewardInput sample.1).overlongFilterFlag sample.2 = .ok (counters', r) ∧
    row = filled keys deleteFlags sample.1 r

/-- What the loop reads of a sample. -/
def withFlag (sample : DataItem × Score) : DataItem × Bool × Score :=
  (sample.1, (getRewardInput sample.1).overlongFilterFlag, sample.2)

theorem getElem?_of_drop_zip {sample : DataItem × Score} {rest : List (DataItem × Score)}
    (h : (data.zip finals).drop p = sample :: rest) : data[p]? = some sample.1 ∧ finals[p]? = some sample.2 := by
  have hget : (data.zip finals)[p]? = some sample := by
    rw [← List.head?_drop, h]
    rfl
  exact List.getElem?_zip_eq_some.mp hget

/-- The rows that the loop has made. -/
theorem makeRows_rows {keys : List String} {samples : List (DataItem × Score)} {rows rows' : Rows}
    (hall : AllKnown m calls data pattern finals) (hsamples : (data.zip finals).drop p = samples)
    (hcounters : CountersFor m data pattern finals p rows.counters)
    (h : m.makeRows keys deleteFlags rows (samples.map withFlag) = .ok rows') :
    ∃ made rewards, List.Forall₂ (fun sample row => RowAt m data pattern finals keys deleteFlags sample.2 sample.1 row)
        (samples.zipIdx p) made ∧
      List.Forall₂ (fun row x => row.get? "reward_score" = some (.num x)) made rewards ∧
      rows'.rewardTensor = rows.rewardTensor ++ rewards ∧
      rows'.rewardExtraInfo = made.foldl appendExtraInfo rows.rewardExtraInfo := by
  induction samples generalizing p rows with
  | nil =>
    cases h
    exact ⟨[], [], .nil, .nil, (List.append_nil _).symm, rfl⟩
  | cons sample samples ih =>
    obtain ⟨hitem, hf⟩ := getElem?_of_drop_zip hsamples
    obtain ⟨next, hadd, h⟩ := bind_eq_ok.mp h
    obtain ⟨⟨counters', r⟩, hr⟩ := rowScore_of_addRow hadd
    obtain ⟨hnext, hrowFor, -⟩ := row_step hall hcounters hitem hf hr
    obtain ⟨x, next', hx, hadd', hcounters', hreward, hinfo⟩ :=
      addRow_of_rowScore keys deleteFlags rows hr hrowFor
    rw [hadd] at hadd'
    cases hadd'
    obtain ⟨made, rewards, hmade, hrewards, htensor, hextra⟩ :=
      ih (drop_succ_of_drop hsamples) (by rw [hcounters']; exact hnext) h
    refine ⟨filled keys deleteFlags sample.1 r :: made, x :: rewards, ?_, .cons hx hrewards, ?_, ?_⟩
    · rw [List.zipIdx_cons]
      exact .cons ⟨rows.counters, counters', r, hcounters, hr, rfl⟩ hmade
    · rw [htensor, hreward, List.append_assoc]
      rfl
    · rw [hextra, hinfo]
      rfl

/-- The keys of the lists. -/
def infoKey (finals : List Score) (key : String) : Prop :=
  ¬ (contains key "process" = true ∨ key = "acc_score") ∧
    ((if key = "acc" then "acc_score" else key) ∈ allKeys finals ∨
      (if key = "acc" then "acc_score" else key) ∈ failedKeys)

/-- All rows have the same keys. -/
theorem filled_keys (deleteFlags : List (String × Bool)) {r : Score} (hall : AllKnown m calls data pattern finals)
    (hitem : data[p]? = some item) (hf : finals[p]? = some f) (hr : RowFor f r) :
    (filled (allKeys finals) deleteFlags item r).get? "acc" = none ∧
      ∀ key, (rowValue (filled (allKeys finals) deleteFlags item r) key).isSome ↔ infoKey finals key := by
  have hknown := hall.known p item f hitem hf
  have hmem : f ∈ finals := List.mem_of_getElem? hf
  have hkeys : ∀ key, ((filled (allKeys finals) deleteFlags item r).get? key).isSome ↔
      key ∈ allKeys finals ∨ key ∈ failedKeys := by
    intro key
    unfold filled
    rw [isSome_fillKeys, (isSome_deleted _ hr.rewardScore).2.2 key, hr.keys key]
    have hin : ∀ key, (f.get? key).isSome → key ∈ allKeys finals := fun key h => mem_allKeys.mpr ⟨f, hmem, h⟩
    unfold addedKeys
    cases hscored : RewardManager.isScored f with
    | false =>
      tauto
    | true =>
      rw [if_pos rfl, List.mem_singleton]
      have hready : Ready item.rewardMethod f := by
        apply hknown.ready
        by_contra hnot
        rw [hknown.failed hnot] at hscored
        cases hscored
      constructor
      · rintro ((h | h) | h)
        · exact .inl (hin key h)
        · exact .inr (h ▸ by decide)
        · exact .inl h
      · rintro (h | h)
        · exact .inr h
        · unfold failedKeys at h
          simp only [List.mem_cons, List.not_mem_nil, or_false] at h
          rcases h with rfl | rfl | rfl | rfl | rfl | rfl
          · obtain ⟨x, hx⟩ := hready.isScored_iff.mp hscored
            exact .inr (hin _ (by rw [hx]; rfl))
          · exact .inr (hin _ hready.accScore)
          · obtain ⟨x, hx⟩ := hready.overlongReward
            exact .inr (hin _ (by rw [hx]; rfl))
          · exact .inr (hin _ hready.overlong)
          · exact .inl (.inr rfl)
          · obtain ⟨x, hx⟩ := hready.langConsistencyRatio
            exact .inr (hin _ (by rw [hx]; rfl))
  constructor
  · cases hget : (filled (allKeys finals) deleteFlags item r).get? "acc" with
    | none => rfl
    | some v =>
      exfalso
      rcases (hkeys "acc").mp (by rw [hget]; rfl) with hall' | hfailed
      · obtain ⟨f', hf', hsome⟩ := mem_allKeys.mp hall'
        obtain ⟨q, hq⟩ := List.mem_iff_getElem?.mp hf'
        have hlt : q < data.length := by
          rw [← hall.length]
          exact (List.getElem?_eq_some_iff.mp hq).1
        rw [(hall.known q _ f' (List.getElem?_eq_getElem hlt) hq).noAcc] at hsome
        cases hsome
      · exact absurd hfailed (by decide)
  · intro key
    unfold rowValue infoKey
    by_cases hkey : contains key "process" = true ∨ key = "acc_score"
    · rw [if_pos hkey]
      exact iff_of_false (by simp) fun h => h.1 hkey
    · rw [if_neg hkey, hkeys]
      exact (and_iff_right hkey).symm

/-- The lists are the columns of the rows. -/
theorem columns_of_rows {samples : List ((DataItem × Score) × Nat)} {made before : List Score}
    {info : Dict String (List Value)} (hall : AllKnown m calls data pattern finals)
    (hsamples : ∀ sample ∈ samples, data[sample.2]? = some sample.1.1 ∧ finals[sample.2]? = some sample.1.2)
    (h : List.Forall₂ (fun sample row =>
      RowAt m data pattern finals (allKeys finals) deleteFlags sample.2 sample.1 row) samples made)
    (hinfo : Columns (infoKey finals) before info) :
    Columns (infoKey finals) (before ++ made) (made.foldl appendExtraInfo info) := by
  induction h generalizing before info with
  | nil =>
    rw [List.append_nil]
    exact hinfo
  | @cons sample row samples made hrow _ ih =>
    obtain ⟨counters, counters', r, hcounters, hr, rfl⟩ := hrow
    obtain ⟨hitem, hf⟩ := hsamples sample List.mem_cons_self
    obtain ⟨-, hrowFor, -⟩ := row_step hall hcounters hitem hf hr
    obtain ⟨hacc, hkeys⟩ := filled_keys deleteFlags hall hitem hf hrowFor
    rw [List.foldl_cons, List.append_cons]
    exact ih (fun sample hmem => hsamples sample (List.mem_cons_of_mem _ hmem)) (hinfo.append hacc hkeys)

end Yuan.Reward.RewardManager
