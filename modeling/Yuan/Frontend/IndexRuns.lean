import Yuan.Frontend.FrontendSteps

/-!
# Whole runs of the front end

In every run that avoids what the indexes do not survive, the maps agree and no operation fails: the ids of
live requests are named once in an abort, an abort that ends all the children of a parent names the parent
(and no live child behind it), and the last child that finishes leaves no child behind that was aborted
without a queue.
-/

namespace Yuan.Frontend

variable {L : Type}

/-- The maps of the output processor agree. -/
structure IndexesAgree (p : OutputProcessor L) : Prop where
  externalReqIds : ∀ ext id, id ∈ (p.externalReqIds.get? ext).getD [] ↔
    ∃ rs, p.requestStates.get? id = some rs ∧ rs.externalReqId = ext
  lists : ∀ ext ids, p.externalReqIds.get? ext = some ids → ids ≠ [] ∧ ids.Nodup
  parentRequests : ∀ q, q ∈ p.parentRequests ↔
    ∃ id rs, p.requestStates.get? id = some rs ∧ rs.parentReq = some q

/-- Each parent that is kept has a live child. -/
def Used (p : OutputProcessor L) : Prop :=
  ∀ q ∈ p.parentRequests, ∃ id rs, p.requestStates.get? id = some rs ∧ rs.parentReq = some q

theorem Consistent.indexesAgree {queue : Bool} {fanOuts : String → Option FanOut}
    {p : OutputProcessor L} (h : Consistent queue fanOuts p []) (hused : Used p) : IndexesAgree p where
  externalReqIds := by
    intro ext id
    rw [h.listed]
    exact and_iff_right List.not_mem_nil
  lists := h.lists
  parentRequests := by
    intro q
    refine ⟨hused q, ?_⟩
    rintro ⟨id, rs, hrs, hq⟩
    exact (h.child id rs q hrs hq).parentRequests

/-! ## Conditions on operations -/

/-- A child that ends is not the last live one, or it is the last that its parent waits for. -/
def LastChildKnown (p : OutputProcessor L) (o : EngineCoreOutput L) : Prop :=
  ∀ rs q parent, p.requestStates.get? o.requestId = some rs → rs.parentReq = some q →
    p.parents q = some parent → rs.EndsWith o →
    (∃ id rs', id ≠ o.requestId ∧ p.requestStates.get? id = some rs' ∧ rs'.parentReq = some q) ∨
      parent.childRequests = [o.requestId]

/-- Without the ids, each parent is named or keeps a live child. -/
def ParentsNamed (p : OutputProcessor L) (ids : List String) : Prop :=
  ∀ q ∈ p.parentRequests, q ∈ ids ∨
    ∃ id rs, p.requestStates.get? id = some rs ∧ rs.parentReq = some q ∧ id ∉ ids

/-- What the indexes survive. -/
def AsyncLLM.Orderly (llm : AsyncLLM L) : FrontendOp L → Prop
  | .addRequest request _ => request.samplingParams = none → llm.processor.streamInterval ≤ 1
  | .parentRequest _ _ => True
  | .addChild _ => True
  | .processOutputs outputs => EachOutput LastChildKnown llm.processor outputs
  | .abort ids true => LiveOnce llm.processor ids ∧ ParentsLast llm.processor ids ∧
      ParentsNamed llm.processor ids
  | .abort externalIds false => ∀ q ∈ llm.processor.parentRequests, ∃ id rs,
      llm.processor.requestStates.get? id = some rs ∧ rs.parentReq = some q ∧
        rs.externalReqId ∉ externalIds

/-! ## Steps -/

section Steps

variable {queue : Bool} {fanOuts : String → Option FanOut} {p p' : OutputProcessor L}
  {rs : RequestState L} {finishReason : Option FinishReason}

/-- The parent of a child that ends waits for the others. -/
theorem Processed.childRequests (h : Processed p p' rs finishReason) (hended : finishReason.isSome)
    {q : String} {parent : ParentRequest L} (hq : rs.parentReq = some q) (hparent : p.parents q = some parent) :
    ∃ parent', p'.parents q = some parent' ∧ parent'.childRequests = parent.childRequests.erase rs.requestId := by
  obtain ⟨moved, hreported, hparents⟩ := h.parents
  rw [OutputProcessor.parentOf_of_some hq, hparent] at hreported
  have hmoved := hparents q
  rw [if_pos hq] at hmoved
  cases hreported with
  | skipped _ hunfinished =>
    rw [hunfinished] at hended
    cases hended
  | reported _ parent' c outputs hindex hfinished hfinal hcollects =>
    refine ⟨parent', hmoved, ?_⟩
    rw [hcollects.childRequests, hfinished, hended]
    rfl

/-- An output leaves no parent behind. -/
theorem used_of_processed (h : Consistent queue fanOuts p []) (hused : Used p)
    {o : EngineCoreOutput L} (hknown : LastChildKnown p o)
    (hrs : p.requestStates.get? o.requestId = some rs) (hprocessed : Processed p p' rs finishReason)
    (hdecode : ∃ rs₁ stopReason, rs.decodeOutput o = .ok (rs₁, finishReason, stopReason)) : Used p' := by
  intro q hq
  obtain ⟨hold, hkept⟩ := (hprocessed.parentRequests q).mp hq
  have hkey := h.key _ rs hrs
  have hother : ∀ id rs', id ≠ o.requestId → p.requestStates.get? id = some rs' →
      p'.requestStates.get? id = some rs' := by
    intro id rs' hne hrs'
    rw [hprocessed.others id (hkey ▸ hne)]
    exact hrs'
  obtain ⟨id, rs', hrs', hchild⟩ := hused q hold
  by_cases hid : id = o.requestId
  · subst hid
    cases hrs.symm.trans hrs'
    cases hreason : finishReason with
    | none =>
      obtain ⟨rs'', hstays, hkeeps, -⟩ := hprocessed.stays (Or.inl hreason)
      exact ⟨_, rs'', hstays, hkeeps.parentReq.trans hchild⟩
    | some reason =>
      subst hreason
      obtain ⟨parent, fanOut, hparent, -⟩ := (h.child _ rs q hrs hchild).parent
      obtain ⟨rs₁, stopReason, hdecode⟩ := hdecode
      rcases hknown rs q parent hrs hchild hparent ⟨rs₁, reason, stopReason, hdecode⟩ with
        ⟨id, rs', hne, hrs', hchild'⟩ | hlast
      · exact ⟨id, rs', hother id rs' hne hrs', hchild'⟩
      · obtain ⟨parent', hparent', hchildren⟩ := hprocessed.childRequests rfl hchild hparent
        refine absurd ⟨rfl, hchild, parent', hparent', ?_⟩ hkept
        rw [hchildren, hlast, hkey]
        simp
  · exact ⟨id, rs', hother id rs' hid hrs', hchild⟩

/-- The steps of an abort keep each parent named or in use. -/
theorem abortInvariant_parentsNamed :
    AbortInvariant queue fanOuts (ParentsNamed : OutputProcessor L → List String → Prop) where
  relist := fun _ hx => hx
  ends := by
    intro p p' id ids rs h hrs hended hx q hq
    rw [hended.parentRequests] at hq
    have hkey := h.key id rs hrs
    rcases hx q hq with hmem | ⟨c, rc, hrc, hcq, hnot⟩
    · refine Or.inl ((List.mem_cons.mp hmem).resolve_left ?_)
      rintro rfl
      cases hrs.symm.trans (h.distinct _ (h.parentRequests _ hq)).1
    · rw [List.mem_cons, not_or] at hnot
      refine Or.inr ⟨c, rc, ?_, hcq, hnot.2⟩
      rw [hended.requestStates, hkey, Dict.get?_erase_of_ne _ hnot.1]
      exact hrc
  gone := by
    intro p id ids hgone hnotParent hx q hq
    rcases hx q hq with hmem | ⟨c, rc, hrc, hcq, hnot⟩
    · refine Or.inl ((List.mem_cons.mp hmem).resolve_left ?_)
      rintro rfl
      exact hnotParent hq
    · exact Or.inr ⟨c, rc, hrc, hcq, fun hmem => hnot (List.mem_cons_of_mem _ hmem)⟩
  children := by
    intro p q ids parent h hparent hx r hr
    by_cases hrq : r = q
    · exact Or.inl (List.mem_append_right _ (hrq ▸ List.mem_cons_self))
    · rcases hx r hr with hmem | ⟨c, rc, hrc, hcr, hnot⟩
      · exact Or.inl (List.mem_append_right _ hmem)
      · refine Or.inr ⟨c, rc, hrc, hcr, fun hmem => ?_⟩
        rcases List.mem_append.mp hmem with hchild | hmem
        · have hcq := h.parentReq_of_child hparent hchild hrc
          rw [hcr] at hcq
          exact hrq (Option.some.inj hcq)
        · exact hnot hmem
  drops := by
    intro p p' q ids hnone hstates hparents hparentRequests hnodup hx r hr
    rw [hparentRequests, hnodup.mem_erase_iff] at hr
    rcases hx r hr.2 with hmem | ⟨c, rc, hrc, hcr, hnot⟩
    · exact Or.inl ((List.mem_cons.mp hmem).resolve_left hr.1)
    · refine Or.inr ⟨c, rc, ?_, hcr, fun hmem => hnot (List.mem_cons_of_mem _ hmem)⟩
      rw [hstates]
      exact hrc

theorem used_of_parentsNamed (h : ParentsNamed p []) : Used p := by
  intro q hq
  obtain ⟨id, rs, hrs, hchild, -⟩ := (h q hq).resolve_left List.not_mem_nil
  exact ⟨id, rs, hrs, hchild⟩

end Steps

namespace AsyncLLM

variable {llm : AsyncLLM L}

/-- Everything that can happen to a request keeps each parent in use. -/
theorem keptBySteps_used (queue : Bool) :
    KeptBySteps queue (fun _ => Used : (String → Option FanOut) → OutputProcessor L → Prop)
      (fun _ => LastChildKnown) (fun _ => ParentsNamed) where
  session := by
    intro fanOuts p p' id rs hrs halone hupdated hused q hq
    obtain ⟨c, rc, hrc, hchild⟩ := hused q ((hupdated.parentRequests q).mp hq)
    refine ⟨c, rc, ?_, hchild⟩
    rw [hupdated.others]
    · exact hrc
    · rintro rfl
      cases hrs.symm.trans hrc
      rw [halone] at hchild
      cases hchild
  added := by
    intro fanOuts p p' rs hnew halone hadded hused q hq
    rcases (hadded.parentRequests q).mp hq with hold | hq
    · obtain ⟨c, rc, hrc, hchild⟩ := hused q hold
      refine ⟨c, rc, ?_, hchild⟩
      rw [hadded.requestStates, if_neg]
      · exact hrc
      · rintro rfl
        rw [hnew] at hrc
        cases hrc
    · rw [halone] at hq
      cases hq
  started := fun _ _ _ hused => hused
  child := by
    intro llm llm' q fanOut parent rs _ _ _ _ hadded hused r hr
    rcases (hadded.parentRequests r).mp hr with hold | rfl
    · obtain ⟨c, rc, hrc, hchild⟩ := hused r hold
      refine ⟨c, rc, ?_, hchild⟩
      rw [hadded.requestStates, if_neg]
      · exact hrc
      · rintro rfl
        rw [hadded.new] at hrc
        cases hrc
    · exact ⟨rs.requestId, rs, by rw [hadded.requestStates, if_pos rfl], hadded.parentReq⟩
  output := fun h hused hknown hrs hprocessed hdecode =>
    used_of_processed h hused hknown hrs hprocessed hdecode
  abort := fun _ => abortInvariant_parentsNamed
  aborted := used_of_parentsNamed

theorem spares_of_orderly {op : FrontendOp L} (h : llm.Orderly op) :
    llm.Spares (fun _ => LastChildKnown) (fun _ => ParentsNamed) op := by
  cases op with
  | addRequest request prompt => exact h
  | parentRequest request prompt => exact h
  | addChild q => exact h
  | processOutputs outputs => exact h
  | abort ids internal =>
    cases internal with
    | true => exact h
    | false =>
      intro aborted haborted q hq
      obtain ⟨id, rs, hrs, hchild, hkept⟩ := h q hq
      refine Or.inr ⟨id, rs, hrs, hchild, fun hmem => ?_⟩
      obtain ⟨rs', hrs', hexternal⟩ := (haborted id).mp hmem
      cases hrs.symm.trans hrs'
      exact hkept hexternal

/-- In every run whose operations the indexes survive, the maps agree, and no such operation fails. -/
theorem indexes_agree {tokenizer : Option Tokenizer} {streamInterval : Nat} {queue : Bool}
    (h : ReachedBy (fun llm op => (step llm op).toOption)
      (fun (llm : AsyncLLM L) op => llm.Admits op ∧ llm.Orderly op) (new tokenizer streamInterval queue) llm) :
    IndexesAgree llm.processor ∧ ∀ op, llm.Admits op → llm.Orderly op → ∃ llm', llm.step op = .ok llm' := by
  obtain ⟨hagrees, hused, hok⟩ := kept_of_run (keptBySteps_used queue)
    (agrees_new tokenizer streamInterval queue) (fun q hq => by cases hq)
    (fun llm op _ _ hop => ⟨hop.1, spares_of_orderly hop.2⟩) h
  exact ⟨hagrees.indexesAgree hused, fun op hadmits horderly => hok op ⟨hadmits, horderly⟩⟩

/-- A request for two completions. -/
def twoCompletions : EngineCoreRequest where
  requestId := "request-0"
  externalReqId := some "request"
  promptTokenIds := some [1]
  samplingParams := some { n := 2 }

theorem admits_twoCompletions : (new none 1 true : AsyncLLM Nat).Admits (.parentRequest twoCompletions none) :=
  ⟨⟨rfl, rfl, Or.inl rfl⟩, rfl, ⟨_, rfl, by decide⟩, ⟨rfl, rfl, fun q i h => by cases h⟩,
    fun i => ⟨rfl, rfl⟩⟩

/-- The last output of a child. -/
def lastOutput (id : String) : EngineCoreOutput Nat where
  requestId := id
  newTokenIds := [5]
  finishReason := some .length

theorem answers_lastOutput {rs : RequestState Nat} (h : rs.detokenizer.isSome) (id : String) :
    rs.Answers (lastOutput id) := by
  refine ⟨iff_of_false (by simp [lastOutput]) (Option.isSome_iff_ne_none.mp h), fun lp _ => ?_⟩
  exact ⟨fun hsome => (by cases hsome), fun hsome => (by cases hsome)⟩

/-- A request for three completions. -/
def threeCompletions : EngineCoreRequest :=
  { twoCompletions with samplingParams := some { n := 3 } }

/-- Of three children the first ends, and the second is aborted. -/
theorem indexes_agree_fan_out :
    ∃ llm llm' : AsyncLLM Nat, runAll (fun llm op => (step llm op).toOption) (new none 1 true)
        [.parentRequest threeCompletions none, .addChild "request-0", .addChild "request-0", .addChild "request-0",
          .processOutputs [lastOutput "0_request-0"]] = some llm ∧ llm.step (.abort ["1_request-0"] true) = .ok llm' ∧
      llm'.processor.requestStates.keys = ["2_request-0"] ∧ llm'.processor.parentRequests = ["request-0"] ∧
      IndexesAgree llm'.processor := by
  have hstart : (new none 1 true : AsyncLLM Nat).Admits (.parentRequest threeCompletions none) :=
    ⟨⟨rfl, rfl, Or.inl rfl⟩, rfl, ⟨_, rfl, by decide⟩, ⟨rfl, rfl, fun q i h => by cases h⟩, fun i => ⟨rfl, rfl⟩⟩
  obtain ⟨llm, llm', hrun, hreach, hstep, hkeys, hparents, hnamed, c, hc, hchild⟩ : ∃ llm llm' : AsyncLLM Nat,
      runAll (fun llm op => (step llm op).toOption) (new none 1 true)
        [.parentRequest threeCompletions none, .addChild "request-0", .addChild "request-0", .addChild "request-0",
          .processOutputs [lastOutput "0_request-0"]] = some llm ∧
      ReachedBy (fun llm op => (step llm op).toOption)
        (fun (llm : AsyncLLM Nat) op => llm.Admits op ∧ llm.Orderly op) (new none 1 true) llm ∧
      llm.step (.abort ["1_request-0"] true) = .ok llm' ∧
      llm'.processor.requestStates.keys = ["2_request-0"] ∧ llm'.processor.parentRequests = ["request-0"] ∧
      llm.processor.parentRequests = ["request-0"] ∧
      ∃ c, llm.processor.requestStates.get? "2_request-0" = some c ∧ c.parentReq = some "request-0" := by
    refine ⟨_, _, rfl, .step (.processOutputs [lastOutput "0_request-0"]) (.step (.addChild "request-0")
      (.step (.addChild "request-0") (.step (.addChild "request-0") (.step (.parentRequest threeCompletions none)
        .start ⟨hstart, trivial⟩ rfl) ⟨trivial, trivial⟩ rfl) ⟨trivial, trivial⟩ rfl) ⟨trivial, trivial⟩ rfl)
      ⟨?answers, ?known, fun _ _ _ _ => trivial⟩ rfl, rfl, by decide, by decide, by decide, _, rfl, rfl⟩
    case answers =>
      intro o ho rs hrs
      cases List.mem_singleton.mp ho
      cases hrs
      exact answers_lastOutput rfl _
    case known =>
      intro rs q parent hrs hq _ _
      cases hrs
      cases hq
      exact Or.inl ⟨"1_request-0", _, by decide, rfl, rfl⟩
  have horderly : llm.Orderly (.abort ["1_request-0"] true) := by
    refine ⟨⟨fun _ => List.not_mem_nil, trivial⟩, ⟨fun _ _ _ _ _ => List.not_mem_nil, trivial⟩, fun q hq => ?_⟩
    rw [hnamed, List.mem_singleton] at hq
    subst hq
    exact Or.inr ⟨_, c, hc, hchild, by decide⟩
  exact ⟨llm, llm', hrun, hstep, hkeys, hparents,
    (indexes_agree (.step (.abort ["1_request-0"] true) hreach ⟨trivial, horderly⟩ (by rw [hstep]; rfl))).1⟩

/-- The user aborts the request by its external id: its children are removed, but the parent stays. -/
theorem abort_leaks_parent :
    ∃ llm : AsyncLLM Nat,
      ReachedBy (fun llm op => (step llm op).toOption) (fun llm op => llm.Admits op) (new none 1 true) llm ∧
      llm.processor.requestStates.keys = [] ∧ llm.processor.parentRequests = ["request-0"] ∧
      ¬ IndexesAgree llm.processor := by
  obtain ⟨llm, hrun, hkeys, hparents⟩ : ∃ llm : AsyncLLM Nat,
      ReachedBy (fun llm op => (step llm op).toOption) (fun llm op => llm.Admits op)
        (new none 1 true) llm ∧
      llm.processor.requestStates.keys = [] ∧ llm.processor.parentRequests = ["request-0"] :=
    ⟨_, .step (.abort ["request"] false) (.step (.addChild "request-0")
      (.step (.addChild "request-0") (.step (.parentRequest twoCompletions none) .start admits_twoCompletions rfl)
        trivial rfl) trivial rfl) trivial rfl, by decide, by decide⟩
  refine ⟨llm, hrun, hkeys, hparents, fun h => ?_⟩
  obtain ⟨id, rs, hrs, -⟩ := (h.parentRequests "request-0").mp (by rw [hparents]; exact List.mem_cons_self)
  have hmem := Dict.mem_keys_of_mem (Dict.get?_eq_some.mp hrs)
  rw [hkeys] at hmem
  cases hmem

end AsyncLLM

end Yuan.Frontend
