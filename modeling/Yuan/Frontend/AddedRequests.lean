import Yuan.Frontend.ProcessedOutputs

/-!
# New requests

A new request, a child of a fan-out or an input of a session is added: the maps stay in agreement.
-/

namespace Yuan.Frontend

variable {L : Type} {queue : Bool} {fanOuts : String → Option FanOut} {p p' : OutputProcessor L}
  {id : String} {rs : RequestState L} {request : EngineCoreRequest} {parent : ParentRequest L}

open ParentRequest (childReqId)

/-- A child's id is longer than its parent's. -/
theorem childReqId_ne (q : String) (i : Nat) : childReqId q i ≠ q := by
  intro h
  have hlength := congrArg String.length h
  unfold childReqId at hlength
  rw [String.length_append, String.length_append] at hlength
  have hone : "_".length = 1 := rfl
  omega

theorem RequestState.fromNewRequest_ok (hvalid : request.Valid) (tokenizer : Option Tokenizer)
    (prompt parentReq : Option String) (index : Nat) (queue : Bool) {streamInterval : Nat}
    (hpooling : request.samplingParams = none → streamInterval ≤ 1 ∧ parentReq = none) :
    ∃ rs : RequestState L, fromNewRequest tokenizer request prompt parentReq index queue streamInterval = .ok rs ∧
      rs.requestId = request.requestId ∧ rs.parentReq = parentReq ∧ rs.requestIndex = index ∧
      rs.queue = queue ∧ rs.streamingInput = request.resumable ∧ rs.Ready ∧
      ∀ params, request.samplingParams = some params → rs.outputKind = params.outputKind := by
  obtain ⟨hexternal, hprompt, hparams⟩ := hvalid
  obtain ⟨externalReqId, hexternal⟩ := Option.isSome_iff_exists.mp hexternal
  obtain ⟨promptLen, hprompt⟩ : ∃ n, promptLength request.promptTokenIds request.promptEmbeds = .ok n := by
    cases hlength : promptLength request.promptTokenIds request.promptEmbeds with
    | ok n => exact ⟨n, rfl⟩
    | error e =>
      rw [hlength] at hprompt
      cases hprompt
  -- the tools
  have htools : ∃ kind lp d, outputTools tokenizer request = .ok (kind, lp, d) ∧
      (∀ params, request.samplingParams = some params → kind = params.outputKind) ∧
      ((∃ d' lp', d = some d' ∧ lp = some lp' ∧ LogprobsProcessor.Consistent (L := L) lp') ∨
        (d = none ∧ lp = none ∧ streamInterval ≤ 1 ∧ parentReq = none)) := by
    unfold outputTools
    cases hsampling : request.samplingParams with
    | none =>
      obtain ⟨kind, hkind⟩ :=
        Option.isSome_iff_exists.mp (hparams.resolve_left (by simp [hsampling]))
      rw [hkind]
      exact ⟨kind, none, none, rfl, nofun, Or.inr ⟨rfl, rfl, hpooling hsampling⟩⟩
    | some params =>
      obtain ⟨d, hd⟩ : ∃ d, IncrementalDetokenizer.fromNewRequest
          (if params.detokenize then tokenizer else none) request params = .ok d := by
        unfold IncrementalDetokenizer.fromNewRequest
        split
        · exact ⟨_, rfl⟩
        · dsimp only
          split
          · exact ⟨_, rfl⟩
          · rw [hprompt]
            exact ⟨_, rfl⟩
      dsimp only
      rw [hd]
      refine ⟨params.outputKind, _, _, rfl, fun params' hparams' => ?_, Or.inl ⟨d, _, rfl, rfl, ?_⟩⟩
      · rw [Option.some.inj hparams']
      · exact ⟨Option.isSome_map, Option.isSome_map⟩
  obtain ⟨kind, lp, d, htools, hkind, hready⟩ := htools
  unfold fromNewRequest
  rw [htools]
  rw [hexternal]
  dsimp only
  rw [hprompt]
  exact ⟨_, rfl, rfl, rfl, rfl, rfl, rfl, ⟨isSome_of_promptLength hprompt, hready⟩, hkind⟩

/-- A new request. -/
theorem Consistent.added (h : Consistent queue fanOuts p []) (hnew : p.requestStates.get? id = none)
    (hparent : p.parents id = none) (hid : rs.requestId = id) (hready : rs.Ready)
    (hqueue : rs.queue = queue)
    (hstates : ∀ id', p'.requestStates.get? id' =
      if id' = id then some rs else p.requestStates.get? id')
    (hparents : p'.parents = p.parents)
    (hexternal : p'.externalReqIds = p.externalReqIds.set rs.externalReqId
      ((p.externalReqIds.get? rs.externalReqId).getD [] ++ [id]))
    (hparentRequests : ∀ q ∈ p.parentRequests, q ∈ p'.parentRequests)
    (hnewParent : ∀ q ∈ p'.parentRequests, q ∈ p.parentRequests ∨ rs.parentReq = some q)
    (hnodup : p'.parentRequests.Nodup)
    (hchild : ∀ q, rs.parentReq = some q → LiveChild fanOuts p' rs q)
    (halone : rs.parentReq = none → ∀ q i, (p.parents q).isSome → id ≠ childReqId q i) :
    Consistent queue fanOuts p' [] where
  key := by
    intro id' rs' hrs'
    rw [hstates] at hrs'
    split at hrs'
    case isTrue hsame =>
      cases hrs'
      exact hid.trans hsame.symm
    case isFalse => exact h.key id' rs' hrs'
  ready := by
    intro id' rs' hrs'
    rw [hstates] at hrs'
    split at hrs'
    · cases hrs'
      exact hready
    · exact h.ready id' rs' hrs'
  queued := by
    intro id' rs' hrs'
    rw [hstates] at hrs'
    split at hrs'
    · cases hrs'
      exact hqueue
    · exact h.queued id' rs' hrs'
  listed := by
    intro ext id'
    have hold := h.listed ext id'
    rw [hexternal, Dict.get?_set, hstates]
    by_cases hsame : id' = id
    · subst hsame
      rw [hnew] at hold
      have hunlisted : id' ∉ (p.externalReqIds.get? ext).getD [] := by
        rw [hold]
        rintro ⟨-, rs', hrs', -⟩
        cases hrs'
      rw [if_pos rfl]
      by_cases hext : ext = rs.externalReqId
      · rw [if_pos hext]
        exact iff_of_true (List.mem_append_right _ List.mem_cons_self)
          ⟨List.not_mem_nil, rs, rfl, hext.symm⟩
      · rw [if_neg hext]
        refine iff_of_false hunlisted ?_
        rintro ⟨-, rs', hrs', hext'⟩
        cases hrs'
        exact hext hext'.symm
    · rw [if_neg hsame, ← hold]
      by_cases hext : ext = rs.externalReqId
      · rw [if_pos hext, Option.getD_some, List.mem_append, hext, List.mem_singleton,
          or_iff_left hsame]
      · rw [if_neg hext]
  lists := by
    intro ext ids hids
    rw [hexternal, Dict.get?_set] at hids
    split at hids
    · cases hids
      refine ⟨by simp, ?_⟩
      have hunlisted : id ∉ (p.externalReqIds.get? rs.externalReqId).getD [] := by
        rw [h.listed, hnew]
        rintro ⟨-, rs', hrs', -⟩
        cases hrs'
      rw [List.nodup_append]
      refine ⟨?_, List.nodup_singleton id, ?_⟩
      · cases hold : p.externalReqIds.get? rs.externalReqId with
        | none => exact List.nodup_nil
        | some old => exact (h.lists _ old hold).2
      · intro a ha b hb hab
        rw [List.mem_singleton] at hb
        rw [hab, hb] at ha
        exact hunlisted ha
    · exact h.lists ext ids hids
  fansOut := by
    rw [hparents]
    exact h.fansOut
  child := by
    intro id' rs' q hrs' hq
    rw [hstates] at hrs'
    split at hrs'
    · cases hrs'
      exact hchild q hq
    · have hlive := h.child id' rs' q hrs' hq
      exact ⟨hparents ▸ hlive.parent, hlive.requestId, hlive.streamingInput,
        hparentRequests q hlive.parentRequests⟩
  alone := by
    intro id' rs' hrs' hnone q i hq
    rw [hparents] at hq
    rw [hstates] at hrs'
    split at hrs'
    case isTrue hsame =>
      cases hrs'
      rw [hsame]
      exact halone hnone q i hq
    case isFalse => exact h.alone id' rs' hrs' hnone q i hq
  distinct := by
    intro q hq
    rw [hparents] at hq ⊢
    refine ⟨?_, (h.distinct q hq).2⟩
    rw [hstates, if_neg]
    · exact (h.distinct q hq).1
    · rintro rfl
      rw [hparent] at hq
      cases hq
  parentRequests := by
    intro q hq
    rw [hparents]
    rcases hnewParent q hq with hold | hnew
    · exact h.parentRequests q hold
    · obtain ⟨parent, -, hparent, -⟩ := (hchild q hnew).parent
      rw [← hparents, hparent]
      rfl
  parentsNodup := hnodup

namespace OutputProcessor

/-- What adding a request leads to. -/
structure Added (p p' : OutputProcessor L) (rs : RequestState L) : Prop where
  requestStates : ∀ id, p'.requestStates.get? id =
    if id = rs.requestId then some rs else p.requestStates.get? id
  parents : p'.parents = p.parents
  externalReqIds : p'.externalReqIds = p.externalReqIds.set rs.externalReqId
    ((p.externalReqIds.get? rs.externalReqId).getD [] ++ [rs.requestId])
  parentRequests : ∀ q, q ∈ p'.parentRequests ↔ q ∈ p.parentRequests ∨ rs.parentReq = some q
  nodup : p.parentRequests.Nodup → p'.parentRequests.Nodup
  streamInterval : p'.streamInterval = p.streamInterval
  tokenizer : p'.tokenizer = p.tokenizer

theorem added_ok (p : OutputProcessor L) (rs : RequestState L) :
    Added p (((p.setState rs).addParent rs.parentReq).appendInternalId rs) rs := by
  have hstates : ∀ id, (p.setState rs).requestStates.get? id =
      if id = rs.requestId then some rs else p.requestStates.get? id := by
    intro id
    show (p.requestStates.set rs.requestId rs).get? id = _
    rw [Dict.get?_set]
  unfold addParent
  cases hparent : rs.parentReq with
  | none =>
    refine ⟨hstates, rfl, rfl, fun q => ?_, fun h => h, rfl, rfl⟩
    rw [hparent]
    simp [appendInternalId, setState]
  | some q =>
    dsimp only
    split
    case isTrue hmem =>
      refine ⟨hstates, rfl, rfl, fun r => ?_, fun h => h, rfl, rfl⟩
      rw [hparent]
      refine (or_iff_left_of_imp ?_).symm
      intro hr
      cases hr
      exact hmem
    case isFalse hnew =>
      refine ⟨hstates, rfl, rfl, fun r => ?_, fun h => ?_, rfl, rfl⟩
      · rw [hparent]
        show r ∈ p.parentRequests ++ [q] ↔ _
        rw [List.mem_append, List.mem_singleton]
        exact or_congr_right ⟨fun h => by rw [h], fun h => (Option.some.inj h).symm⟩
      · show (p.parentRequests ++ [q]).Nodup
        rw [List.nodup_append]
        refine ⟨h, List.nodup_singleton q, fun a ha b hb hab => ?_⟩
        rw [List.mem_singleton] at hb
        exact hnew (hb ▸ hab ▸ ha)

/-- `add_request` for an id that is not live. -/
theorem addRequest_new (hvalid : request.Valid) (hnew : p.requestStates.get? request.requestId = none)
    (prompt parentReq : Option String) (index : Nat) (queue : Bool)
    (hpooling : request.samplingParams = none → p.streamInterval ≤ 1 ∧ parentReq = none) :
    ∃ p' rs, p.addRequest request prompt parentReq index queue = .ok p' ∧ Added p p' rs ∧
      rs.requestId = request.requestId ∧ rs.parentReq = parentReq ∧ rs.requestIndex = index ∧
      rs.queue = queue ∧ rs.streamingInput = request.resumable ∧ rs.Ready ∧
      ∀ params, request.samplingParams = some params → rs.outputKind = params.outputKind := by
  obtain ⟨rs, hrs, hid, hparent, hrest⟩ := RequestState.fromNewRequest_ok (L := L) hvalid p.tokenizer
    prompt parentReq index queue hpooling
  refine ⟨_, rs, ?_, added_ok p rs, hid, hparent, hrest⟩
  unfold addRequest
  rw [hnew]
  rw [hrs, ok_bind, hparent]
  rfl

/-- What an input of a session leads to: only its request changes. -/
structure SessionUpdated (p p' : OutputProcessor L) (id : String) : Prop where
  others : ∀ id', id' ≠ id → p'.requestStates.get? id' = p.requestStates.get? id'
  alone : ∀ rs', p'.requestStates.get? id = some rs' → rs'.parentReq = none
  parents : p'.parents = p.parents
  parentRequests : ∀ q, q ∈ p'.parentRequests ↔ q ∈ p.parentRequests
  streamInterval : p'.streamInterval = p.streamInterval
  tokenizer : p'.tokenizer = p.tokenizer

/-- `_update_streaming_request_state`. -/
theorem updateStreamingRequestState_ok (h : Consistent queue fanOuts p [])
    (hrs : p.requestStates.get? id = some rs) (halone : rs.parentReq = none)
    (request : EngineCoreRequest) (prompt : Option String) :
    ∃ p', p.updateStreamingRequestState rs request prompt = .ok p' ∧
      Consistent queue fanOuts p' [] ∧ SessionUpdated p p' id := by
  have hready := h.ready id rs hrs
  -- the request is stored again
  have hstore : ∀ rs', Keeps rs rs' → rs'.Ready →
      Consistent queue fanOuts (p.setState rs') [] ∧ SessionUpdated p (p.setState rs') id := by
    intro rs' hkeeps hready'
    have hkey : rs'.requestId = id := hkeeps.requestId.trans (h.key id rs hrs)
    have hstates : ∀ id', (p.setState rs').requestStates.get? id' =
        if id' = id then some rs' else p.requestStates.get? id' := by
      intro id'
      show (p.requestStates.set rs'.requestId rs').get? id' = _
      rw [Dict.get?_set, hkey]
    have hmove : ParentsMove p (p.setState rs') rs none := by
      refine ⟨none, by rw [parentOf_of_none halone]; exact .alone, fun r => ?_⟩
      rw [halone]
      rfl
    refine ⟨h.served hrs hkeeps hready' hmove hstates rfl rfl, ?_, ?_, rfl, fun q => Iff.rfl, rfl, rfl⟩
    · intro id' hne
      rw [hstates, if_neg hne]
    · intro rs'' hrs''
      rw [hstates, if_pos rfl] at hrs''
      cases hrs''
      exact hkeeps.parentReq.trans halone
  have hsame : ∀ rs' : RequestState L, rs'.requestId = rs.requestId →
      rs'.externalReqId = rs.externalReqId → rs'.parentReq = rs.parentReq → rs'.queue = rs.queue →
      Keeps rs rs' := by
    intro rs' hid hexternal hparent hqueue
    refine ⟨hid, hexternal, hparent, hqueue, fun hsome => ?_⟩
    rw [halone] at hsome
    cases hsome
  unfold updateStreamingRequestState
  split
  case isTrue =>
    split
    · obtain ⟨hkeeps, hready', -⟩ := keeps_applyStreamingUpdate hready halone
        { prompt := prompt, promptTokenIds := request.promptTokenIds } (some [])
      exact ⟨_, rfl, hstore _ hkeeps hready'⟩
    · exact ⟨_, rfl, hstore _ (hsame _ rfl rfl rfl rfl) ⟨hready.prompt, hready.tools⟩⟩
  case isFalse =>
    split
    case h_1 =>
      obtain ⟨p', hfinish, h', hstates, hparents, hinterval, htokenizer, hleft⟩ :=
        finishRequest_ok h hrs ⟨rfl, rfl, rfl, rfl, fun _ => ⟨rfl, rfl, rfl⟩⟩ (by rw [hrs]; rfl)
          (fun _ _ => rfl) (Or.inr rfl) rfl rfl
      have hupdated : SessionUpdated p p' id := by
        refine ⟨fun id' hne => by rw [hstates, if_neg hne], fun rs' hrs' => ?_, hparents, fun q => ?_,
          hinterval, htokenizer⟩
        · rw [hstates, if_pos rfl] at hrs'
          cases hrs'
        · rw [hleft, halone]
          simp
      rw [hfinish]
      split
      · refine ⟨_, rfl, ?_, ?_⟩
        · refine h'.unlisted rfl rfl h'.listed h'.lists (List.Sublist.refl _) fun _ _ _ _ _ hq => hq
        · exact ⟨hupdated.others, hupdated.alone, hupdated.parents, hupdated.parentRequests,
            hupdated.streamInterval, hupdated.tokenizer⟩
      · exact ⟨p', rfl, h', hupdated⟩
    case h_2 =>
      split
      · exact ⟨_, rfl, hstore _ (hsame _ rfl rfl rfl rfl) ⟨hready.prompt, hready.tools⟩⟩
      · exact ⟨_, rfl, hstore _ (hsame _ rfl rfl rfl rfl) ⟨hready.prompt, hready.tools⟩⟩

end OutputProcessor

/-! ## Fan-outs -/

theorem ParentRequest.mem_addChild (parent : ParentRequest L) (child c : String) :
    c ∈ (parent.addChild child).childRequests ↔ c ∈ parent.childRequests ∨ c = child := by
  unfold addChild
  split
  case isTrue hold =>
    refine (or_iff_left_of_imp ?_).symm
    rintro rfl
    exact hold
  case isFalse => rw [List.mem_append, List.mem_singleton]

theorem ParentRequest.getChildInfo_spec (parent : ParentRequest L) (index : Nat) :
    (parent.getChildInfo index).2.1 = childReqId parent.requestId index ∧
      (parent.getChildInfo index).1.requestId = parent.requestId ∧
      (parent.getChildInfo index).1.samplingParams = parent.samplingParams ∧
      (parent.getChildInfo index).1.outputAggregator = parent.outputAggregator ∧
      (parent.getChildInfo index).1.reports = parent.reports ∧ (parent.getChildInfo index).1.childRequests =
        (parent.addChild (childReqId parent.requestId index)).childRequests := by
  unfold getChildInfo getChildSamplingParams
  dsimp only
  split
  · exact ⟨rfl, rfl, rfl, rfl, rfl, rfl⟩
  · split <;> exact ⟨rfl, rfl, rfl, rfl, rfl, rfl⟩

/-- A child has the parent's kind of output. -/
theorem ParentRequest.getChildInfo_params {kind : RequestOutputKind} (hkind : parent.samplingParams.outputKind = kind)
    (hcached : ∀ params, parent.cachedChildSamplingParams = some params → params.outputKind = kind) (index : Nat) :
    (parent.getChildInfo index).2.2.outputKind = kind ∧
      ∀ params, (parent.getChildInfo index).1.cachedChildSamplingParams = some params → params.outputKind = kind := by
  unfold getChildInfo getChildSamplingParams
  dsimp only
  split
  case h_1 params hparams => exact ⟨hcached params hparams, hcached⟩
  case h_2 =>
    split
    · refine ⟨hkind, fun params hparams => ?_⟩
      rw [← Option.some.inj hparams]
      exact hkind
    · exact ⟨hkind, hcached⟩

/-- A parent registers a child, or is new. -/
theorem Consistent.fanned {pending : List String} (h : Consistent queue fanOuts p pending) {q : String}
    {fanOut : FanOut} (hfans : FansOut q fanOut parent)
    (hold : ∀ old, p.parents q = some old → ∃ oldFanOut, fanOuts q = some oldFanOut ∧
      oldFanOut.next ≤ fanOut.next ∧ oldFanOut.params = fanOut.params ∧
      ∀ c ∈ old.childRequests, c ∈ parent.childRequests) (hnew : p.parents q = none → p.requestStates.get? q = none ∧
      (∀ r i, (p.parents r).isSome → q ≠ childReqId r i) ∧
      ∀ i, p.requestStates.get? (childReqId q i) = none ∧ p.parents (childReqId q i) = none) :
    Consistent queue (Function.update fanOuts q (some fanOut))
      { p with parents := Function.update p.parents q (some parent) } pending where
  key := h.key
  ready := h.ready
  queued := h.queued
  listed := h.listed
  lists := h.lists
  fansOut := by
    intro r parent' hr
    have hr : Function.update p.parents q (some parent) r = some parent' := hr
    rw [Function.update_apply] at hr
    split at hr
    case isTrue heq =>
      cases hr
      rw [heq, Function.update_self]
      exact ⟨fanOut, rfl, hfans⟩
    case isFalse hne =>
      rw [Function.update_of_ne hne]
      exact h.fansOut r parent' hr
  child := by
    intro id rs r hrs hr
    have hlive := h.child id rs r hrs hr
    obtain ⟨old, oldFanOut, hparent, hfanOut, hmem, hindex, hkind⟩ := hlive.parent
    refine ⟨?_, hlive.requestId, hlive.streamingInput, hlive.parentRequests⟩
    by_cases heq : r = q
    · subst heq
      obtain ⟨oldFanOut', hfanOut', hnext, hparams, hkept⟩ := hold old hparent
      cases hfanOut.symm.trans hfanOut'
      exact ⟨parent, fanOut, Function.update_self _ _ _, Function.update_self _ _ _, hkept _ hmem,
        Nat.lt_of_lt_of_le hindex hnext, hkind.trans (by rw [hparams])⟩
    · exact ⟨old, oldFanOut, (Function.update_of_ne heq _ _).trans hparent,
        (Function.update_of_ne heq _ _).trans hfanOut, hmem, hindex, hkind⟩
  alone := by
    intro id rs hrs hnone r i hr
    have hr : (Function.update p.parents q (some parent) r).isSome := hr
    rw [Function.update_apply] at hr
    split at hr
    case isTrue heq =>
      subst heq
      cases hparent : p.parents r with
      | some old => exact h.alone id rs hrs hnone r i (by rw [hparent]; rfl)
      | none =>
        rintro rfl
        cases hrs.symm.trans ((hnew hparent).2.2 i).1
    case isFalse => exact h.alone id rs hrs hnone r i hr
  distinct := by
    intro r hr
    have hr : (Function.update p.parents q (some parent) r).isSome := hr
    have hdistinct : ∀ r, (p.parents r).isSome ∨ r = q → p.requestStates.get? r = none ∧
        ∀ r' i, (p.parents r').isSome → r ≠ childReqId r' i := by
      rintro r (hr | rfl)
      · exact h.distinct r hr
      · cases hparent : p.parents r with
        | some old => exact h.distinct r (by rw [hparent]; rfl)
        | none => exact ⟨(hnew hparent).1, (hnew hparent).2.1⟩
    have hr' : (p.parents r).isSome ∨ r = q := by
      rw [Function.update_apply] at hr
      split at hr
      case isTrue heq => exact Or.inr heq
      case isFalse => exact Or.inl hr
    refine ⟨(hdistinct r hr').1, fun r' i hr'' => ?_⟩
    have hr'' : (Function.update p.parents q (some parent) r').isSome := hr''
    rw [Function.update_apply] at hr''
    split at hr''
    case isTrue heq =>
      subst heq
      cases hparent : p.parents r' with
      | some old => exact (hdistinct r hr').2 r' i (by rw [hparent]; rfl)
      | none =>
        rintro rfl
        rcases hr' with hsome | heq
        · rw [((hnew hparent).2.2 i).2] at hsome
          cases hsome
        · exact childReqId_ne r' i heq
    case isFalse => exact (hdistinct r hr').2 r' i hr''
  parentRequests := by
    intro r hr
    show (Function.update p.parents q (some parent) r).isSome = true
    rw [Function.update_apply]
    split
    · rfl
    · exact h.parentRequests r hr
  parentsNodup := h.parentsNodup

namespace AsyncLLM

variable {llm : AsyncLLM L}

/-- The maps of a front end agree. -/
abbrev Agrees (llm : AsyncLLM L) : Prop := Consistent llm.queue llm.fanOuts llm.processor []

/-- What a round of a fan-out leads to. -/
structure ChildAdded (llm llm' : AsyncLLM L) (q : String) (fanOut : FanOut) (parent : ParentRequest L)
    (rs : RequestState L) : Prop where
  requestStates : ∀ id, llm'.processor.requestStates.get? id =
    if id = rs.requestId then some rs else llm.processor.requestStates.get? id
  requestId : rs.requestId = childReqId q fanOut.next
  parentReq : rs.parentReq = some q
  requestIndex : rs.requestIndex = fanOut.next
  new : llm.processor.requestStates.get? rs.requestId = none
  parents : llm'.processor.parents =
    Function.update llm.processor.parents q (some (parent.getChildInfo fanOut.next).1)
  fanOuts : llm'.fanOuts =
    Function.update llm.fanOuts q (some { fanOut with next := fanOut.next + 1 })
  parentRequests : ∀ r, r ∈ llm'.processor.parentRequests ↔
    r ∈ llm.processor.parentRequests ∨ r = q
  queue : llm'.queue = llm.queue
  streamInterval : llm'.processor.streamInterval = llm.processor.streamInterval
  tokenizer : llm'.processor.tokenizer = llm.processor.tokenizer

/-- A round of a fan-out. -/
theorem addChild_ok (h : llm.Agrees) {q : String} {fanOut : FanOut} (hfanOut : llm.fanOuts q = some fanOut)
    (hparent : llm.processor.parents q = some parent) (hnext : fanOut.next < fanOut.params.n) :
    ∃ llm' rs, llm.addChild q = .ok llm' ∧ llm'.Agrees ∧ ChildAdded llm llm' q fanOut parent rs := by
  obtain ⟨fanOut', hfanOut', hfans⟩ := h.fansOut q parent hparent
  cases hfanOut.symm.trans hfanOut'
  obtain ⟨hid, hparentId, hparams, haggregator, hreports, hchildren⟩ :=
    parent.getChildInfo_spec fanOut.next
  obtain ⟨hkind, hcached⟩ := ParentRequest.getChildInfo_params
    (congrArg SamplingParams.outputKind hfans.samplingParams) hfans.childParams fanOut.next
  rw [hfans.requestId] at hid hchildren hparentId
  have hmem : ∀ c, c ∈ (parent.getChildInfo fanOut.next).1.childRequests ↔
      c ∈ parent.childRequests ∨ c = childReqId q fanOut.next := by
    intro c
    rw [hchildren, ParentRequest.mem_addChild]
  have hfans' : FansOut q { fanOut with next := fanOut.next + 1 } (parent.getChildInfo fanOut.next).1 := by
    constructor
    case requestId => exact hparentId
    case samplingParams => exact hparams.trans hfans.samplingParams
    case childParams => exact hcached
    case room =>
      rw [haggregator]
      exact hfans.room
    case next => exact hnext
    case children =>
      intro c hc
      rcases (hmem c).mp hc with hold | rfl
      · obtain ⟨i, hi, hci⟩ := hfans.children c hold
        exact ⟨i, Nat.lt_succ_of_lt hi, hci⟩
      · exact ⟨fanOut.next, Nat.lt_succ_self _, rfl⟩
    case nodup =>
      rw [hchildren]
      unfold ParentRequest.addChild
      split
      case isTrue => exact hfans.nodup
      case isFalse hnew =>
        rw [List.nodup_append]
        refine ⟨hfans.nodup, List.nodup_singleton _, fun a ha b hb hab => ?_⟩
        rw [List.mem_singleton] at hb
        exact hnew (hb ▸ hab ▸ ha)
    case valid => exact hfans.valid
  -- the child is new
  have hsome : (llm.processor.parents q).isSome := by
    rw [hparent]
    rfl
  have hnew : llm.processor.requestStates.get? (childReqId q fanOut.next) = none := by
    cases hlive : llm.processor.requestStates.get? (childReqId q fanOut.next) with
    | none => rfl
    | some rs =>
      cases hrs : rs.parentReq with
      | none => exact absurd rfl (h.alone _ rs hlive hrs q fanOut.next hsome)
      | some r =>
        have hchild := h.child _ rs r hlive hrs
        obtain ⟨hr, hindex⟩ :=
          ParentRequest.childReqId_inj ((h.key _ rs hlive).symm.trans hchild.requestId)
        subst hr
        obtain ⟨-, fanOut', -, hfanOut', -, hlt, -⟩ := hchild.parent
        cases hfanOut.symm.trans hfanOut'
        omega
  have hnoParent : llm.processor.parents (childReqId q fanOut.next) = none := by
    apply Option.not_isSome_iff_eq_none.mp
    intro hchildParent
    exact (h.distinct _ hchildParent).2 q fanOut.next hsome rfl
  have h₁ := h.fanned hfans' (fun old hold => by
    cases hparent.symm.trans hold
    exact ⟨fanOut, hfanOut, Nat.le_succ _, rfl, fun c hc => (hmem c).mpr (Or.inl hc)⟩)
    (fun hnone => by cases hparent.symm.trans hnone)
  let p₁ : OutputProcessor L := { llm.processor with
    parents := Function.update llm.processor.parents q
      (some (parent.getChildInfo fanOut.next).1) }
  let childRequest : EngineCoreRequest := { fanOut.request with
    requestId := (parent.getChildInfo fanOut.next).2.1
    samplingParams := some (parent.getChildInfo fanOut.next).2.2 }
  have hchildId : childRequest.requestId = childReqId q fanOut.next := hid
  have hvalid : childRequest.Valid := ⟨hfans.valid.1.1, hfans.valid.1.2.1, Or.inl rfl⟩
  obtain ⟨p', rs, hadd, hadded, hrsId, hrsParent, hrsIndex, hrsQueue, hrsStreaming, hready, hrsKind⟩ :=
    OutputProcessor.addRequest_new (p := p₁) hvalid (hchildId ▸ hnew) fanOut.prompt (some q) fanOut.next
      llm.queue nofun
  have hrsId : rs.requestId = childReqId q fanOut.next := hrsId.trans hchildId
  let llm' : AsyncLLM L := { llm with
    processor := p'
    fanOuts := Function.update llm.fanOuts q (some { fanOut with next := fanOut.next + 1 }) }
  have hstep : llm.addChild q = .ok llm' := by
    have hunfold : llm.addChild q = (do
        let processor ← p₁.addRequest childRequest fanOut.prompt (some q) fanOut.next llm.queue
        return { llm with
          processor := processor
          fanOuts := Function.update llm.fanOuts q (some { fanOut with next := fanOut.next + 1 }) }) := by
      unfold addChild
      rw [hfanOut, hparent]
      dsimp only
      rw [if_pos hnext]
    rw [hunfold, hadd]
    rfl
  have hlive : LiveChild llm'.fanOuts p' rs q := by
    constructor
    case parent =>
      refine ⟨_, _, (congrFun hadded.parents q).trans (Function.update_self _ _ _),
        Function.update_self _ _ _, ?_, ?_, hrsKind _ rfl |>.trans hkind⟩
      · rw [hrsId]
        exact (hmem _).mpr (Or.inr rfl)
      · rw [hrsIndex]
        exact Nat.lt_succ_self _
    case requestId => rw [hrsId, hrsIndex]
    case streamingInput => exact hrsStreaming.trans hfans.valid.2
    case parentRequests => exact (hadded.parentRequests q).mpr (Or.inr hrsParent)
  refine ⟨llm', rs, hstep, ?_, ?_⟩
  · apply h₁.added hnew ((Function.update_of_ne (childReqId_ne _ _) _ _).trans hnoParent) hrsId hready hrsQueue
    case hstates =>
      rw [← hrsId]
      exact hadded.requestStates
    case hparents => exact hadded.parents
    case hexternal =>
      rw [← hrsId]
      exact hadded.externalReqIds
    case hparentRequests => exact fun r hr => (hadded.parentRequests r).mpr (Or.inl hr)
    case hnewParent => exact fun r hr => (hadded.parentRequests r).mp hr
    case hnodup => exact hadded.nodup h.parentsNodup
    case hchild =>
      intro r hr
      rw [hrsParent] at hr
      cases hr
      exact hlive
    case halone =>
      intro hnone
      rw [hrsParent] at hnone
      cases hnone
  · constructor
    case requestStates => exact hadded.requestStates
    case requestId => exact hrsId
    case parentReq => exact hrsParent
    case requestIndex => exact hrsIndex
    case new =>
      rw [hrsId]
      exact hnew
    case parents => exact hadded.parents
    case fanOuts => rfl
    case parentRequests =>
      intro r
      rw [hadded.parentRequests, hrsParent]
      exact or_congr_right ⟨fun hr => (Option.some.inj hr).symm, fun hr => congrArg some hr.symm⟩
    case queue => rfl
    case streamInterval => exact hadded.streamInterval
    case tokenizer => exact hadded.tokenizer

/-- The start of a fan-out. -/
theorem parentRequest_ok (h : llm.Agrees) (hvalid : request.Valid) (hresumable : request.resumable = false)
    {params : SamplingParams} (hparams : request.samplingParams = some params) (hnew : llm.NewId request.requestId)
    (hchildren : ∀ i, llm.processor.requestStates.get? (childReqId request.requestId i) = none ∧
      llm.processor.parents (childReqId request.requestId i) = none) (prompt : Option String) :
    ∃ externalReqId, request.externalReqId = some externalReqId ∧
      llm.parentRequest request prompt = .ok { llm with
        processor := { llm.processor with
          parents := Function.update llm.processor.parents request.requestId
            (some (.new request.requestId externalReqId params)) }
        fanOuts := Function.update llm.fanOuts request.requestId
          (some { request := request, params := params, prompt := prompt }) } ∧
      Consistent llm.queue
        (Function.update llm.fanOuts request.requestId
          (some { request := request, params := params, prompt := prompt }))
        { llm.processor with
          parents := Function.update llm.processor.parents request.requestId
            (some (.new request.requestId externalReqId params)) } [] := by
  obtain ⟨externalReqId, hexternal⟩ := Option.isSome_iff_exists.mp hvalid.1
  obtain ⟨hnotLive, hnotParent, hnotChild⟩ := hnew
  refine ⟨externalReqId, hexternal, ?_, ?_⟩
  · unfold parentRequest
    rw [hexternal, hparams]
  · apply h.fanned
    case hfans =>
      constructor
      case requestId => rfl
      case samplingParams => rfl
      case childParams => exact nofun
      case room =>
        intro hkind
        show (if params.outputKind = .finalOnly then List.replicate params.n none else []).length = _
        rw [if_pos hkind]
        exact List.length_replicate
      case next => exact Nat.zero_le _
      case children => exact nofun
      case nodup => exact List.nodup_nil
      case valid => exact ⟨hvalid, hresumable⟩
    case hold =>
      intro old hold
      cases hnotParent.symm.trans hold
    case hnew => exact fun _ => ⟨hnotLive, hnotChild, hchildren⟩

end AsyncLLM

end Yuan.Frontend
