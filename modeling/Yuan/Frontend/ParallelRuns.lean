import Yuan.Frontend.IndexRuns

/-!
# Parallel sampling finishes once

A parent finishes when no child is left that it waits for. As long as the last child it waits for does not end
before the fan-out is complete, it finishes once, with the last of its `n` children, and in FINAL_ONLY mode
this output has the final completions of all of them.
-/

namespace Yuan.Frontend

variable {L : Type}

open ParentRequest (childReqId)

/-- An output of the parent that is finished. -/
def Report.completes (r : Report L) : Bool := r.finished && !r.outputs.isEmpty

/-- The final completions that a child returned. -/
def finals (reports : List (Report L)) (child : String) : List (CompletionOutput L) :=
  (reports.filter fun r => r.child = child && r.completion.finished).map Report.completion

@[simp] theorem finals_nil (child : String) : finals ([] : List (Report L)) child = [] := rfl

theorem finals_append (reports : List (Report L)) (r : Report L) (child : String) :
    finals (reports ++ [r]) child = finals reports child ++
      if r.child = child ∧ r.completion.finished then [r.completion] else [] := by
  unfold finals
  rw [List.filter_append, List.map_append]
  congr 1
  by_cases h : r.child = child ∧ r.completion.finished = true
  · rw [if_pos h, List.filter_cons_of_pos (by simp [h.1, h.2])]
    rfl
  · rw [if_neg h, List.filter_cons_of_neg (by simpa using h)]
    rfl

/-- All children of a fan-out were registered and have finished. -/
def AllFinished (fanOut : FanOut) (q : String) (parent : ParentRequest L) : Prop :=
  fanOut.next = fanOut.params.n ∧
    ∀ i, i < fanOut.params.n → finals parent.reports (childReqId q i) ≠ []

/-- The parent finishes once, as its last child does; in FINAL_ONLY mode with the final completions of
all. -/
structure FinishesOnce (fanOut : FanOut) (q : String) (parent : ParentRequest L) : Prop where
  early : ¬ AllFinished fanOut q parent → ∀ r ∈ parent.reports, r.completes = false
  once : AllFinished fanOut q parent → ∃ before r, parent.reports = before ++ [r] ∧
    r.completes = true ∧ (∀ r' ∈ before, r'.completes = false) ∧
    (fanOut.params.outputKind = .finalOnly → r.outputs.length = fanOut.params.n ∧
      ∀ i, i < fanOut.params.n → ∃ c, finals parent.reports (childReqId q i) = [c] ∧
        r.outputs[i]? = some (some c))

/-- What a parent has collected. -/
structure Collected (fanOut : FanOut) (q : String) (parent : ParentRequest L) : Prop where
  many : 1 < fanOut.params.n
  reported : ∀ r ∈ parent.reports, ∃ i, i < fanOut.next ∧ r.child = childReqId q i
  finals : ∀ i, i < fanOut.next → (finals parent.reports (childReqId q i)).length =
    if childReqId q i ∈ parent.childRequests then 0 else 1
  aggregator : fanOut.params.outputKind = .finalOnly → ∀ i, i < fanOut.params.n →
    parent.outputAggregator[i]? = some (Yuan.Frontend.finals parent.reports (childReqId q i)).head?
  waits : parent.childRequests = [] → fanOut.next = 0 ∨ fanOut.next = fanOut.params.n
  early : parent.childRequests ≠ [] ∨ fanOut.next < fanOut.params.n →
    ∀ r ∈ parent.reports, r.completes = false
  once : parent.childRequests = [] → fanOut.next = fanOut.params.n →
    ∃ before r, parent.reports = before ++ [r] ∧ r.completes = true ∧
      (∀ r' ∈ before, r'.completes = false) ∧
      (fanOut.params.outputKind = .finalOnly → r.outputs = parent.outputAggregator)

namespace Collected

variable {fanOut : FanOut} {q : String} {parent parent' : ParentRequest L}

section

variable (h : Collected fanOut q parent)
include h

/-- A parent that has no report of a child has no final completion of it. -/
theorem finals_unregistered {i : Nat} (hi : fanOut.next ≤ i) :
    Yuan.Frontend.finals parent.reports (childReqId q i) = [] := by
  unfold Yuan.Frontend.finals
  rw [List.map_eq_nil_iff, List.filter_eq_nil_iff]
  intro r hr hchild
  obtain ⟨j, hj, hrj⟩ := h.reported r hr
  rw [Bool.and_eq_true, decide_eq_true_eq, hrj] at hchild
  have hsame := (ParentRequest.childReqId_inj hchild.1).2
  omega

variable (hfans : FansOut q fanOut parent)
include hfans

/-- When all children have finished, the parent waits for none. -/
theorem allFinished_iff : AllFinished fanOut q parent ↔ fanOut.next = fanOut.params.n ∧ parent.childRequests = [] := by
  refine and_congr_right fun hnext => ?_
  constructor
  · intro hall
    apply List.eq_nil_iff_forall_not_mem.mpr
    intro c hc
    obtain ⟨i, hi, rfl⟩ := hfans.children c hc
    have hcount := h.finals i hi
    rw [if_pos hc] at hcount
    exact hall i (hnext ▸ hi) (List.length_eq_zero_iff.mp hcount)
  · intro hnil i hi hempty
    have hcount := h.finals i (hnext ▸ hi)
    rw [hempty, hnil] at hcount
    cases hcount

theorem finishesOnce : FinishesOnce fanOut q parent where
  early := by
    intro hnot
    rw [h.allFinished_iff hfans] at hnot
    apply h.early
    by_cases hnil : parent.childRequests = []
    · exact Or.inr (Nat.lt_of_le_of_ne hfans.next fun hnext => hnot ⟨hnext, hnil⟩)
    · exact Or.inl hnil
  once := by
    intro hall
    obtain ⟨hnext, hnil⟩ := (h.allFinished_iff hfans).mp hall
    obtain ⟨before, r, hreports, hcompletes, hbefore, houtputs⟩ := h.once hnil hnext
    refine ⟨before, r, hreports, hcompletes, hbefore, fun hkind => ?_⟩
    rw [houtputs hkind]
    refine ⟨hfans.room hkind, fun i hi => ?_⟩
    have hcount := h.finals i (hnext ▸ hi)
    rw [hnil] at hcount
    obtain ⟨c, hc⟩ := List.length_eq_one_iff.mp hcount
    refine ⟨c, hc, ?_⟩
    rw [h.aggregator hkind i hi, hc]
    rfl

/-- An output of a child that the parent waits for. It must not be the end of the last one while the fan-out
goes on. -/
theorem collects {i : Nat} (hi : i < fanOut.next) {c : CompletionOutput L}
    {outputs : List (Option (CompletionOutput L))} (hcollects : parent.Collects (childReqId q i) c parent' outputs)
    (hmem : childReqId q i ∈ parent.childRequests) (hindex : c.index = i)
    (hfinal : fanOut.params.outputKind = .finalOnly → c.finished = true)
    (hcomplete : c.finished = true → fanOut.next < fanOut.params.n →
      parent.childRequests ≠ [childReqId q i]) : Collected fanOut q parent' := by
  have hkind : parent.samplingParams.outputKind = fanOut.params.outputKind :=
    congrArg SamplingParams.outputKind hfans.samplingParams
  have hne : parent.childRequests ≠ [] := List.ne_nil_of_mem hmem
  have hold := h.early (Or.inl hne)
  -- the parent waits for none behind the end of its last child
  have hnil : parent'.childRequests = [] → c.finished = true ∧ fanOut.next = fanOut.params.n := by
    intro hnil
    rw [hcollects.childRequests] at hnil
    split at hnil
    case isTrue hfinished =>
      refine ⟨hfinished, Nat.le_antisymm hfans.next (Nat.le_of_not_lt fun hlt => ?_)⟩
      have hlength := congrArg List.length hnil
      rw [List.length_erase_of_mem hmem, List.length_nil] at hlength
      have hpos := List.length_pos_iff.mpr hne
      obtain ⟨a, ha⟩ := List.length_eq_one_iff.mp (show parent.childRequests.length = 1 by omega)
      rw [ha, List.mem_singleton] at hmem
      exact hcomplete hfinished hlt (by rw [ha, hmem])
    case isFalse => exact absurd hnil hne
  constructor
  case many => exact h.many
  case reported =>
    rw [hcollects.reports]
    intro r hr
    rcases List.mem_append.mp hr with hr | hr
    · exact h.reported r hr
    · rw [List.mem_singleton] at hr
      exact ⟨i, hi, by rw [hr]⟩
  case finals =>
    intro j hj
    rw [hcollects.reports, finals_append, List.length_append, h.finals j hj, hcollects.childRequests]
    by_cases hij : childReqId q i = childReqId q j
    · rw [← hij, if_pos hmem]
      by_cases hfinished : c.finished = true
      · rw [if_pos ⟨rfl, hfinished⟩, if_pos hfinished, if_neg hfans.nodup.not_mem_erase]
        rfl
      · rw [if_neg (fun h => hfinished h.2), if_neg hfinished, if_pos hmem]
        rfl
    · have hother : (if childReqId q i = childReqId q j ∧ c.finished = true then [c] else []) = [] :=
        if_neg fun h => hij h.1
      have hsame : childReqId q j ∈ (if c.finished = true then
          parent.childRequests.erase (childReqId q i) else parent.childRequests) ↔
          childReqId q j ∈ parent.childRequests := by
        split
        · exact List.mem_erase_of_ne (Ne.symm hij)
        · exact Iff.rfl
      rw [hother, List.length_nil, Nat.add_zero]
      simp only [hsame]
  case aggregator =>
    intro hfinalOnly j hj
    have hfinished := hfinal hfinalOnly
    have hroom := hfans.room hfinalOnly
    have hcount := h.finals i hi
    rw [if_pos hmem, List.length_eq_zero_iff] at hcount
    rw [hcollects.outputAggregator, if_pos (hkind.trans hfinalOnly), hcollects.reports, finals_append, hindex,
      List.getElem?_set]
    by_cases hij : i = j
    · subst hij
      rw [if_pos rfl, if_pos (hroom ▸ hj), if_pos ⟨rfl, hfinished⟩, hcount]
      rfl
    · rw [if_neg hij, h.aggregator hfinalOnly j hj,
        if_neg (fun h => hij (ParentRequest.childReqId_inj h.1).2), List.append_nil]
  case waits => exact fun hempty => Or.inr (hnil hempty).2
  case early =>
    intro hwaits r hr
    rw [hcollects.reports] at hr
    rcases List.mem_append.mp hr with hr | hr
    · exact hold r hr
    · rw [List.mem_singleton] at hr
      rw [hr]
      have hopen : parent'.childRequests ≠ [] := by
        intro hempty
        rcases hwaits with hwaits | hwaits
        · exact hwaits hempty
        · exact Nat.ne_of_lt hwaits (hnil hempty).2
      rw [List.isEmpty_eq_false_iff.mpr hopen]
      rfl
  case once =>
    intro hempty _
    obtain ⟨hfinished, hnext⟩ := hnil hempty
    have houtputs : fanOut.params.outputKind = .finalOnly → outputs = parent'.outputAggregator := by
      intro hfinalOnly
      rw [hcollects.collected (hkind.trans hfinalOnly), if_neg (fun h => h hempty)]
    refine ⟨parent.reports, _, hcollects.reports, ?_, hold, houtputs⟩
    unfold Report.completes
    rw [hempty]
    have hsome : outputs ≠ [] := by
      by_cases hfinalOnly : fanOut.params.outputKind = .finalOnly
      · rw [houtputs hfinalOnly]
        intro hnone
        have hroom := (hfans.shrinks hcollects.shrinks).room hfinalOnly
        rw [hnone, List.length_nil] at hroom
        omega
      · rw [hcollects.streamed (fun h => hfinalOnly (hkind ▸ h)) hmem]
        simp
    rw [List.isEmpty_eq_false_iff.mpr hsome]
    rfl

end

/-- The parent at the start of its fan-out. -/
theorem new {externalReqId : String} (hmany : 1 < fanOut.params.n) (hnext : fanOut.next = 0) :
    Collected fanOut q (.new q externalReqId fanOut.params : ParentRequest L) where
  many := hmany
  reported := fun r hr => by cases hr
  finals := by
    intro i hi
    rw [hnext] at hi
    cases hi
  aggregator := by
    intro hkind i hi
    show (if fanOut.params.outputKind = .finalOnly then List.replicate fanOut.params.n none else [])[i]? = _
    rw [if_pos hkind, List.getElem?_replicate, if_pos hi]
    rfl
  waits := fun _ => Or.inl hnext
  early := fun _ r hr => by cases hr
  once := by
    intro _ hdone
    omega

/-- The next child is registered. -/
theorem registers (h : Collected fanOut q parent) (hfans : FansOut q fanOut parent)
    (hnext : fanOut.next < fanOut.params.n) :
    Collected { fanOut with next := fanOut.next + 1 } q (parent.getChildInfo fanOut.next).1 := by
  obtain ⟨-, -, -, haggregator, hreports, hchildren⟩ := parent.getChildInfo_spec fanOut.next
  rw [hfans.requestId] at hchildren
  have hmem : ∀ c, c ∈ (parent.getChildInfo fanOut.next).1.childRequests ↔
      c ∈ parent.childRequests ∨ c = childReqId q fanOut.next := by
    intro c
    rw [hchildren, ParentRequest.mem_addChild]
  have hwaits : (parent.getChildInfo fanOut.next).1.childRequests ≠ [] :=
    List.ne_nil_of_mem ((hmem _).mpr (Or.inr rfl))
  constructor
  case many => exact h.many
  case reported =>
    rw [hreports]
    intro r hr
    obtain ⟨i, hi, hri⟩ := h.reported r hr
    exact ⟨i, Nat.lt_succ_of_lt hi, hri⟩
  case finals =>
    intro i hi
    rw [hreports]
    rcases Nat.lt_succ_iff_lt_or_eq.mp hi with hold | rfl
    · have hsame : childReqId q i ∈ (parent.getChildInfo fanOut.next).1.childRequests ↔
          childReqId q i ∈ parent.childRequests := by
        rw [hmem, or_iff_left]
        exact fun hid => Nat.ne_of_lt hold (ParentRequest.childReqId_inj hid).2
      rw [h.finals i hold]
      simp only [hsame]
    · rw [h.finals_unregistered (Nat.le_refl _), if_pos ((hmem _).mpr (Or.inr rfl))]
      rfl
  case aggregator =>
    rw [haggregator, hreports]
    exact h.aggregator
  case waits => exact fun hnil => absurd hnil hwaits
  case early =>
    rw [hreports]
    exact fun _ => h.early (Or.inr hnext)
  case once => exact fun hnil => absurd hnil hwaits

end Collected

/-! ## Steps -/

/-- Each parent has collected what its children returned. -/
def AllCollected (fanOuts : String → Option FanOut) (p : OutputProcessor L) : Prop :=
  ∀ q fanOut parent, fanOuts q = some fanOut → p.parents q = some parent → Collected fanOut q parent

/-- A child that ends while its fan-out goes on is not the last one that its parent waits for. -/
def EndsBehindFanOut (fanOuts : String → Option FanOut) (p : OutputProcessor L) (o : EngineCoreOutput L) :
    Prop :=
  ∀ rs q fanOut parent, p.requestStates.get? o.requestId = some rs → rs.parentReq = some q →
    fanOuts q = some fanOut → p.parents q = some parent → rs.EndsWith o →
    fanOut.next < fanOut.params.n → parent.childRequests ≠ [o.requestId]

/-- Without the ids, a request that has live children and whose fan-out goes on keeps a live child. -/
def FanOutsKept (fanOuts : String → Option FanOut) (p : OutputProcessor L) (ids : List String) : Prop :=
  ∀ q fanOut, fanOuts q = some fanOut → fanOut.next < fanOut.params.n →
    (∃ id rs, p.requestStates.get? id = some rs ∧ rs.parentReq = some q) →
    q ∉ ids ∧ ∃ id rs, p.requestStates.get? id = some rs ∧ rs.parentReq = some q ∧ id ∉ ids

section Steps

variable {queue : Bool} {fanOuts : String → Option FanOut} {p p' : OutputProcessor L}
  {pending : List String} {id : String} {rs : RequestState L} {finishReason : Option FinishReason}

theorem AllCollected.moves (hcollected : AllCollected fanOuts p)
    (h : Consistent queue fanOuts p pending) (hrs : p.requestStates.get? id = some rs)
    (hmove : ParentsMove p p' rs finishReason)
    (hcomplete : ∀ q fanOut parent, rs.parentReq = some q → fanOuts q = some fanOut →
      p.parents q = some parent → finishReason.isSome → fanOut.next < fanOut.params.n →
      parent.childRequests ≠ [rs.requestId]) : AllCollected fanOuts p' := by
  intro q fanOut parent' hfanOut hparent'
  obtain ⟨moved, hreported, hparents⟩ := hmove
  rw [hparents] at hparent'
  split at hparent'
  case isTrue hq =>
    obtain ⟨parent, fanOut', hparent, hfanOut', hmem, hindex, hkind⟩ := (h.child id rs q hrs hq).parent
    cases hfanOut.symm.trans hfanOut'
    rw [OutputProcessor.parentOf_of_some hq, hparent, hparent'] at hreported
    have hold := hcollected q fanOut parent hfanOut hparent
    obtain ⟨fanOut', hfanOut', hfans⟩ := h.fansOut q parent hparent
    cases hfanOut.symm.trans hfanOut'
    have hid := (h.child id rs q hrs hq).requestId
    cases hreported with
    | skipped => exact hold
    | reported _ _ c outputs hcindex hfinished hfinal hcollects =>
      have hcomplete := hcomplete q fanOut parent hq hfanOut hparent
      rw [hid] at hcollects hmem hcomplete
      apply hold.collects hfans hindex hcollects hmem hcindex
      · intro hfinalOnly
        rw [hfinished]
        exact hfinal ((congrArg SamplingParams.outputKind hfans.samplingParams).trans hfinalOnly)
      · rw [hfinished]
        exact hcomplete
  case isFalse => exact hcollected q fanOut parent' hfanOut hparent'

/-- The steps of an abort keep what the parents have collected. -/
theorem abortInvariant_fanOutsKept : AbortInvariant true fanOuts
    (fun p ids => AllCollected fanOuts p ∧ FanOutsKept fanOuts (p : OutputProcessor L) ids) where
  relist := fun _ hx => hx
  ends := by
    rintro p p' id ids rs h hrs hended ⟨hcollected, hkept⟩
    have hkey := h.key id rs hrs
    have hmove : ParentsMove p p' rs (some .abort) := hended.parents
    constructor
    · refine hcollected.moves h hrs hmove fun q fanOut parent hq hfanOut hparent _ hnext honly => ?_
      obtain ⟨-, c, rc, hrc, hcq, hnot⟩ := hkept q fanOut hfanOut hnext ⟨id, rs, hrs, hq⟩
      obtain ⟨parent', -, hparent', -, hmem, -⟩ := (h.child c rc q hrc hcq).parent
      cases hparent.symm.trans hparent'
      rw [honly, List.mem_singleton, h.key c rc hrc, hkey] at hmem
      exact hnot (hmem ▸ List.mem_cons_self)
    · rintro q fanOut hfanOut hnext ⟨c, rc, hrc, hcq⟩
      have hold := (OutputProcessor.leaves_of_ended hended).1.requestStates
      obtain ⟨hq, c', rc', hrc', hcq', hnot⟩ := hkept q fanOut hfanOut hnext ⟨c, rc, hold c rc hrc, hcq⟩
      rw [List.mem_cons, not_or] at hnot
      refine ⟨fun hmem => hq (List.mem_cons_of_mem _ hmem), c', rc', ?_, hcq', hnot.2⟩
      rw [hended.requestStates, hkey, Dict.get?_erase_of_ne _ hnot.1]
      exact hrc'
  gone := by
    rintro p id ids - - ⟨hcollected, hkept⟩
    refine ⟨hcollected, fun q fanOut hfanOut hnext hlive => ?_⟩
    obtain ⟨hq, c, rc, hrc, hcq, hnot⟩ := hkept q fanOut hfanOut hnext hlive
    exact ⟨fun hmem => hq (List.mem_cons_of_mem _ hmem), c, rc, hrc, hcq,
      fun hmem => hnot (List.mem_cons_of_mem _ hmem)⟩
  children := by
    rintro p q ids parent h hparent ⟨hcollected, hkept⟩
    refine ⟨hcollected, fun r fanOut hfanOut hnext hlive => ?_⟩
    obtain ⟨hr, c, rc, hrc, hcr, hnot⟩ := hkept r fanOut hfanOut hnext hlive
    obtain ⟨parent', -, hparent', -⟩ := (h.child c rc r hrc hcr).parent
    refine ⟨fun hmem => ?_, c, rc, hrc, hcr, fun hmem => ?_⟩
    · rcases List.mem_append.mp hmem with hchild | hmem
      · obtain ⟨fanOut', -, hfans⟩ := h.fansOut q parent hparent
        obtain ⟨i, -, hri⟩ := hfans.children r hchild
        exact (h.distinct r (by rw [hparent']; rfl)).2 q i (by rw [hparent]; rfl) hri
      · exact hr hmem
    · rcases List.mem_append.mp hmem with hchild | hmem
      · have hcq := h.parentReq_of_child hparent hchild hrc
        cases hcr.symm.trans hcq
        exact hr List.mem_cons_self
      · exact hnot hmem
  drops := by
    rintro p p' q ids - hstates hparents - - ⟨hcollected, hkept⟩
    constructor
    · unfold AllCollected
      rw [hparents]
      exact hcollected
    · unfold FanOutsKept
      rw [hstates]
      intro r fanOut hfanOut hnext hlive
      obtain ⟨hr, c, rc, hrc, hcr, hnot⟩ := hkept r fanOut hfanOut hnext hlive
      exact ⟨fun hmem => hr (List.mem_cons_of_mem _ hmem), c, rc, hrc, hcr,
        fun hmem => hnot (List.mem_cons_of_mem _ hmem)⟩

end Steps

namespace AsyncLLM

variable {llm : AsyncLLM L}

/-- A parent does not lose its last child while its fan-out goes on; the operation does not fail. -/
def FansOutFirst (llm : AsyncLLM L) : FrontendOp L → Prop
  | .addRequest request _ => request.samplingParams = none → llm.processor.streamInterval ≤ 1
  | .parentRequest _ _ => True
  | .addChild _ => True
  | .processOutputs outputs => EachOutput (EndsBehindFanOut llm.fanOuts) llm.processor outputs
  | .abort ids true => LiveOnce llm.processor ids ∧ ParentsLast llm.processor ids ∧
      FanOutsKept llm.fanOuts llm.processor ids
  | .abort externalIds false => ∀ q fanOut, llm.fanOuts q = some fanOut → fanOut.next < fanOut.params.n →
      (∃ id rs, llm.processor.requestStates.get? id = some rs ∧ rs.parentReq = some q) →
      ∃ id rs, llm.processor.requestStates.get? id = some rs ∧ rs.parentReq = some q ∧
        rs.externalReqId ∉ externalIds

/-- Everything that can happen to a request keeps what the parents have collected. -/
theorem keptBySteps_allCollected : KeptBySteps true
    (AllCollected : (String → Option FanOut) → OutputProcessor L → Prop) EndsBehindFanOut
    (fun fanOuts p ids => AllCollected fanOuts p ∧ FanOutsKept fanOuts p ids) where
  session := by
    intro fanOuts p p' id rs _ _ hupdated hcollected
    unfold AllCollected
    rw [hupdated.parents]
    exact hcollected
  added := by
    intro fanOuts p p' rs _ _ hadded hcollected
    unfold AllCollected
    rw [hadded.parents]
    exact hcollected
  started := by
    intro fanOuts p q externalReqId fanOut _ hnext hmany hcollected r fanOut' parent' hfanOut' hparent'
    dsimp only at hparent'
    rw [Function.update_apply] at hfanOut' hparent'
    by_cases hr : r = q
    · rw [if_pos hr] at hfanOut' hparent'
      cases hfanOut'
      cases hparent'
      rw [hr]
      exact .new hmany hnext
    · rw [if_neg hr] at hfanOut' hparent'
      exact hcollected r fanOut' parent' hfanOut' hparent'
  child := by
    intro llm llm' q fanOut parent rs hagrees hfanOut hparent hnext hadded hcollected r fanOut' parent' hfanOut'
      hparent'
    rw [hadded.fanOuts, Function.update_apply] at hfanOut'
    rw [hadded.parents, Function.update_apply] at hparent'
    by_cases hr : r = q
    · rw [if_pos hr] at hfanOut' hparent'
      cases hfanOut'
      cases hparent'
      obtain ⟨fanOut', hfanOut', hfans⟩ := hagrees.fansOut q parent hparent
      cases hfanOut.symm.trans hfanOut'
      rw [hr]
      exact (hcollected q fanOut parent hfanOut hparent).registers hfans hnext
    · rw [if_neg hr] at hfanOut' hparent'
      exact hcollected r fanOut' parent' hfanOut' hparent'
  output := by
    rintro fanOuts p p' o rs finishReason h hcollected hbehind hrs hprocessed ⟨rs₁, stopReason, hdecode⟩
    refine hcollected.moves h hrs hprocessed.parents fun q fanOut parent hq hfanOut hparent hended hnext => ?_
    obtain ⟨reason, rfl⟩ := Option.isSome_iff_exists.mp hended
    rw [h.key _ rs hrs]
    exact hbehind rs q fanOut parent hrs hq hfanOut hparent ⟨rs₁, reason, stopReason, hdecode⟩ hnext
  abort := fun _ => abortInvariant_fanOutsKept
  aborted := fun hx => hx.1

theorem spares_of_fansOutFirst (h : llm.Agrees) {op : FrontendOp L} (hop : llm.FansOutFirst op)
    (hcollected : AllCollected llm.fanOuts llm.processor) :
    llm.Spares EndsBehindFanOut
      (fun fanOuts p ids => AllCollected fanOuts p ∧ FanOutsKept fanOuts p ids) op := by
  cases op with
  | addRequest request prompt => exact hop
  | parentRequest request prompt => exact hop
  | addChild q => exact hop
  | processOutputs outputs => exact hop
  | abort ids internal =>
    cases internal with
    | true =>
      obtain ⟨honce, hlast, hkept⟩ := hop
      exact ⟨honce, hlast, hcollected, hkept⟩
    | false =>
      intro aborted haborted
      refine ⟨hcollected, fun q fanOut hfanOut hnext hlive => ?_⟩
      obtain ⟨id, rs, hrs, hchild, hkept⟩ := hop q fanOut hfanOut hnext hlive
      obtain ⟨parent, -, hparent, -⟩ := (h.child id rs q hrs hchild).parent
      refine ⟨fun hmem => ?_, id, rs, hrs, hchild, fun hmem => ?_⟩
      · obtain ⟨rs', hrs', -⟩ := (haborted q).mp hmem
        cases (h.distinct q (by rw [hparent]; rfl)).1.symm.trans hrs'
      · obtain ⟨rs', hrs', hexternal⟩ := (haborted id).mp hmem
        cases hrs.symm.trans hrs'
        exact hkept hexternal

/-- In every run in which no parent loses its last child while its fan-out goes on, each parent finishes
once, and no such operation fails. -/
theorem finishes_once {tokenizer : Option Tokenizer} {streamInterval : Nat}
    (h : ReachedBy (fun llm op => (step llm op).toOption)
      (fun (llm : AsyncLLM L) op => llm.Admits op ∧ llm.FansOutFirst op) (new tokenizer streamInterval true) llm) :
    (∀ q fanOut parent, llm.fanOuts q = some fanOut → llm.processor.parents q = some parent →
      FinishesOnce fanOut q parent) ∧ ∀ op, llm.Admits op → llm.FansOutFirst op → ∃ llm', llm.step op = .ok llm' := by
  obtain ⟨hagrees, hcollected, hok⟩ := kept_of_run keptBySteps_allCollected
    (agrees_new tokenizer streamInterval true) (fun q fanOut parent hfanOut => by cases hfanOut)
    (fun llm op hagrees hcollected hop => ⟨hop.1, spares_of_fansOutFirst hagrees hop.2 hcollected⟩) h
  refine ⟨fun q fanOut parent hfanOut hparent => ?_, fun op hadmits hfirst => hok op ⟨hadmits, hfirst⟩⟩
  obtain ⟨fanOut', hfanOut', hfans⟩ := hagrees.fansOut q parent hparent
  cases hfanOut.symm.trans hfanOut'
  exact (hcollected q fanOut parent hfanOut hparent).finishesOnce hfans

/-- A request for two completions that are returned at the end. -/
def finalCompletions : EngineCoreRequest :=
  { twoCompletions with samplingParams := some { n := 2, outputKind := .finalOnly } }

theorem admits_finalCompletions : (new none 1 true : AsyncLLM Nat).Admits (.parentRequest finalCompletions none) :=
  ⟨⟨rfl, rfl, Or.inl rfl⟩, rfl, ⟨_, rfl, by decide⟩, ⟨rfl, rfl, fun q i h => by cases h⟩,
    fun i => ⟨rfl, rfl⟩⟩

/-- Both children are registered before the first of them ends: the parent finishes with the second. -/
theorem finishes_once_fan_out :
    ∃ (llm : AsyncLLM Nat) (fanOut : FanOut) (parent : ParentRequest Nat),
      runAll (fun llm op => (step llm op).toOption) (new none 1 true)
        [.parentRequest finalCompletions none, .addChild "request-0", .addChild "request-0",
          .processOutputs [lastOutput "0_request-0"], .processOutputs [lastOutput "1_request-0"]] = some llm ∧
      llm.fanOuts "request-0" = some fanOut ∧ llm.processor.parents "request-0" = some parent ∧
      (parent.reports.map fun r => (r.completes, r.outputs.map Option.isSome)) = [(false, []), (true, [true, true])] ∧
      FinishesOnce fanOut "request-0" parent := by
  obtain ⟨llm, fanOut, parent, hrun, hreach, hfanOut, hparent, hreports⟩ :
      ∃ (llm : AsyncLLM Nat) (fanOut : FanOut) (parent : ParentRequest Nat),
        runAll (fun llm op => (step llm op).toOption) (new none 1 true)
          [.parentRequest finalCompletions none, .addChild "request-0", .addChild "request-0",
            .processOutputs [lastOutput "0_request-0"], .processOutputs [lastOutput "1_request-0"]] = some llm ∧
        ReachedBy (fun llm op => (step llm op).toOption)
          (fun (llm : AsyncLLM Nat) op => llm.Admits op ∧ llm.FansOutFirst op) (new none 1 true) llm ∧
        llm.fanOuts "request-0" = some fanOut ∧ llm.processor.parents "request-0" = some parent ∧
        (parent.reports.map fun r => (r.completes, r.outputs.map Option.isSome)) =
          [(false, []), (true, [true, true])] := by
    refine ⟨_, _, _, rfl, .step (.processOutputs [lastOutput "1_request-0"]) (.step
      (.processOutputs [lastOutput "0_request-0"]) (.step (.addChild "request-0") (.step (.addChild "request-0")
        (.step (.parentRequest finalCompletions none) .start ⟨admits_finalCompletions, trivial⟩ rfl)
        ⟨trivial, trivial⟩ rfl) ⟨trivial, trivial⟩ rfl) ⟨?first, ?firstBehind, fun _ _ _ _ => trivial⟩ rfl)
      ⟨?second, ?secondBehind, fun _ _ _ _ => trivial⟩ rfl, rfl, rfl, by decide⟩
    case first =>
      intro o ho rs hrs
      cases List.mem_singleton.mp ho
      cases hrs
      exact answers_lastOutput rfl _
    case second =>
      intro o ho rs hrs
      cases List.mem_singleton.mp ho
      cases hrs
      exact answers_lastOutput rfl _
    case firstBehind =>
      intro rs q fanOut parent hrs hq hfanOut _ _ hlt
      cases hrs
      cases hq
      cases hfanOut
      exact absurd hlt (by decide)
    case secondBehind =>
      intro rs q fanOut parent hrs hq hfanOut _ _ hlt
      cases hrs
      cases hq
      cases hfanOut
      exact absurd hlt (by decide)
  exact ⟨llm, fanOut, parent, hrun, hfanOut, hparent, hreports,
    (finishes_once hreach).1 _ _ _ hfanOut hparent⟩

/-- The first child ends before the second is registered: the parent finishes twice, and returns the
completion of one child only at first. -/
theorem early_child_finishes_twice :
    ∃ (llm : AsyncLLM Nat) (fanOut : FanOut) (parent : ParentRequest Nat),
      ReachedBy (fun llm op => (step llm op).toOption) (fun llm op => llm.Admits op) (new none 1 true) llm ∧
      llm.fanOuts "request-0" = some fanOut ∧ llm.processor.parents "request-0" = some parent ∧
      (parent.reports.map fun r => (r.child, r.completes, r.outputs.map Option.isSome)) =
        [("0_request-0", true, [true, false]), ("1_request-0", true, [true, true])] ∧
      ¬ FinishesOnce fanOut "request-0" parent := by
  obtain ⟨llm, fanOut, parent, hrun, hfanOut, hparent, hreports⟩ :
      ∃ (llm : AsyncLLM Nat) (fanOut : FanOut) (parent : ParentRequest Nat),
        ReachedBy (fun llm op => (step llm op).toOption) (fun llm op => llm.Admits op)
          (new none 1 true) llm ∧
        llm.fanOuts "request-0" = some fanOut ∧ llm.processor.parents "request-0" = some parent ∧
        (parent.reports.map fun r => (r.child, r.completes, r.outputs.map Option.isSome)) =
          [("0_request-0", true, [true, false]), ("1_request-0", true, [true, true])] := by
    refine ⟨_, _, _, .step (.processOutputs [lastOutput "1_request-0"]) (.step (.addChild "request-0")
      (.step (.processOutputs [lastOutput "0_request-0"]) (.step (.addChild "request-0")
        (.step (.parentRequest finalCompletions none) .start admits_finalCompletions rfl) trivial rfl) ?_ rfl)
      trivial rfl) ?_ rfl, rfl, rfl, by decide⟩
    · intro o ho rs hrs
      cases List.mem_singleton.mp ho
      cases hrs
      exact answers_lastOutput rfl _
    · intro o ho rs hrs
      cases List.mem_singleton.mp ho
      cases hrs
      exact answers_lastOutput rfl _
  refine ⟨llm, fanOut, parent, hrun, hfanOut, hparent, hreports, fun h => ?_⟩
  have hlength : parent.reports.length = 2 := by
    rw [← List.length_map, hreports]
    rfl
  obtain ⟨r₀, r₁, hlist⟩ := List.length_eq_two.mp hlength
  rw [hlist] at hreports
  have hcompletes : r₀.completes = true :=
    (Prod.mk.inj (Prod.mk.inj (List.cons.inj hreports).1).2).1
  have hmem : r₀ ∈ parent.reports.dropLast := by
    rw [hlist]
    exact List.mem_singleton_self r₀
  by_cases hall : AllFinished fanOut "request-0" parent
  · obtain ⟨before, r, happend, -, hbefore, -⟩ := h.once hall
    rw [happend, List.dropLast_concat] at hmem
    rw [hbefore r₀ hmem] at hcompletes
    cases hcompletes
  · rw [h.early hall r₀ (List.mem_of_mem_dropLast hmem)] at hcompletes
    cases hcompletes

end AsyncLLM

end Yuan.Frontend
