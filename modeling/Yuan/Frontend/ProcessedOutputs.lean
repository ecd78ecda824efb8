import Yuan.Frontend.RequestIndexes

/-!
# Outputs of the engine and new requests

Processing an output keeps the maps in agreement, and so does adding a request, a child or an input of a
session.
-/

namespace Yuan.Frontend

variable {L : Type} {queue : Bool} {fanOuts : String → Option FanOut} {p p' p₁ : OutputProcessor L}
  {id : String} {rs rs' : RequestState L}

/-- A parent whose last child has left. -/
def Childless (p : OutputProcessor L) (q : String) : Prop :=
  ∃ parent, p.parents q = some parent ∧ parent.childRequests = []

/-- What processing an output of `rs` leads to. -/
structure Processed (p p' : OutputProcessor L) (rs : RequestState L)
    (finishReason : Option FinishReason) : Prop where
  parents : ParentsMove p p' rs finishReason
  others : ∀ id, id ≠ rs.requestId → p'.requestStates.get? id = p.requestStates.get? id
  stays : finishReason = none ∨ rs.streamingInput = true →
    ∃ rs', p'.requestStates.get? rs.requestId = some rs' ∧ Keeps rs rs' ∧
      ∀ o, rs.Answers o → rs'.Answers o
  ends : finishReason.isSome → rs.streamingInput = false → p'.requestStates.get? rs.requestId = none
  parentRequests : ∀ q, q ∈ p'.parentRequests ↔ q ∈ p.parentRequests ∧
    ¬ (finishReason.isSome ∧ rs.parentReq = some q ∧ Childless p' q)
  streamInterval : p'.streamInterval = p.streamInterval
  tokenizer : p'.tokenizer = p.tokenizer

namespace OutputProcessor

/-- `_finish_request`, behind the last output of a request. -/
theorem finishRequest_ok (h : Consistent queue fanOuts p []) (hrs : p.requestStates.get? id = some rs)
    (hkeeps : Keeps rs rs') (hlive : (p₁.requestStates.get? id).isSome)
    (hothers : ∀ id', id' ≠ id → p₁.requestStates.get? id' = p.requestStates.get? id')
    (hmove : (∃ finishReason, ParentsMove p p₁ rs finishReason) ∨ p₁.parents = p.parents)
    (hexternal : p₁.externalReqIds = p.externalReqIds)
    (hparentRequests : p₁.parentRequests = p.parentRequests) :
    ∃ p', p₁.finishRequest rs' = .ok p' ∧ Consistent queue fanOuts p' [] ∧
      (∀ id', p'.requestStates.get? id' = if id' = id then none else p.requestStates.get? id') ∧
      p'.parents = p₁.parents ∧ p'.streamInterval = p₁.streamInterval ∧ p'.tokenizer = p₁.tokenizer ∧
      ∀ q, q ∈ p'.parentRequests ↔ q ∈ p.parentRequests ∧
        ¬ (rs.parentReq = some q ∧ Childless p₁ q) := by
  have hkey := h.key id rs hrs
  have hkey' : rs'.requestId = id := hkeeps.requestId.trans hkey
  have hlisted : rs'.requestId ∈ (p₁.externalReqIds.get? rs'.externalReqId).getD [] := by
    rw [hexternal, hkey', hkeeps.externalReqId]
    exact (h.listed _ _).mpr ⟨List.not_mem_nil, rs, hrs, rfl⟩
  let p₂ : OutputProcessor L := { p₁ with
    requestStates := p₁.requestStates.erase rs'.requestId
    externalReqIds := withoutId p₁.externalReqIds rs'.externalReqId rs'.requestId }
  have hstates : ∀ id', p₂.requestStates.get? id' =
      if id' = id then none else p.requestStates.get? id' := by
    intro id'
    show (p₁.requestStates.erase rs'.requestId).get? id' = _
    rw [hkey', Dict.get?_erase]
    by_cases hid : id' = id
    · rw [if_pos hid, if_pos hid]
    · rw [if_neg hid, if_neg hid, hothers id' hid]
  have h₂ : Consistent queue fanOuts p₂ [] := by
    let unlisted : OutputProcessor L := { p with
      externalReqIds := withoutId p.externalReqIds rs.externalReqId rs.requestId }
    have hunlisted : Consistent queue fanOuts unlisted [id] :=
      h.unlistedOne hrs rfl rfl rfl rfl fun id' => by rw [List.mem_singleton]; simp
    refine hunlisted.ended hrs List.mem_cons_self hmove hstates ?_ hparentRequests fun id' hne => ?_
    · show withoutId p₁.externalReqIds rs'.externalReqId rs'.requestId = _
      rw [hexternal, hkeeps.externalReqId, hkeeps.requestId]
    · rw [List.mem_singleton]
      exact iff_of_false List.not_mem_nil hne
  have hfinish : p₁.finishRequest rs' = .ok (p₂.removeParent rs') := by
    obtain ⟨rs₁, hrs₁⟩ := Option.isSome_iff_exists.mp hlive
    rw [← hkey'] at hrs₁
    let removed : OutputProcessor L :=
      { p₁ with requestStates := p₁.requestStates.erase rs'.requestId }
    have hremove : removed.removeInternalId rs' = .ok p₂ := removeInternalId_ok hlisted
    unfold finishRequest
    rw [hrs₁]
    rw [hremove]
    rfl
  -- the parent is dropped if no child is left
  have hdropped : Consistent queue fanOuts (p₂.removeParent rs') [] ∧
      (p₂.removeParent rs').requestStates = p₂.requestStates ∧
      (p₂.removeParent rs').parents = p₁.parents ∧
      (p₂.removeParent rs').streamInterval = p₁.streamInterval ∧
      (p₂.removeParent rs').tokenizer = p₁.tokenizer ∧
      ∀ q, q ∈ (p₂.removeParent rs').parentRequests ↔ q ∈ p.parentRequests ∧
        ¬ (rs.parentReq = some q ∧ Childless p₁ q) := by
    unfold removeParent
    split
    case h_1 q parent hq hparent =>
      rw [hkeeps.parentReq] at hq
      have hparent : p₁.parents q = some parent := by
        rwa [parentOf_of_some (hkeeps.parentReq.trans hq)] at hparent
      split
      case isTrue hnil =>
        refine ⟨h₂.parentDropped rfl rfl rfl rfl ?_, rfl, rfl, rfl, rfl, fun r => ?_⟩
        · intro c rc hrc hrcq
          obtain ⟨parent', -, hparent', -, hmem, -⟩ := (h₂.child c rc q hrc hrcq).parent
          cases hparent.symm.trans hparent'
          rw [hnil] at hmem
          cases hmem
        · show r ∈ p₁.parentRequests.erase q ↔ _
          rw [hparentRequests, h.parentsNodup.mem_erase_iff, and_comm, hq]
          refine and_congr_right fun _ => ?_
          constructor
          · rintro hne ⟨hr, -⟩
            exact hne (Option.some.inj hr).symm
          · rintro hnot rfl
            exact hnot ⟨rfl, parent, hparent, hnil⟩
      case isFalse hne =>
        refine ⟨h₂, rfl, rfl, rfl, rfl, fun r => ?_⟩
        rw [hparentRequests, hq]
        refine (and_iff_left ?_).symm
        rintro ⟨hr, parent', hparent', hnil⟩
        cases hr
        cases hparent.symm.trans hparent'
        exact hne hnil
    case h_2 hnone =>
      refine ⟨h₂, rfl, rfl, rfl, rfl, fun r => ?_⟩
      rw [hparentRequests]
      refine (and_iff_left ?_).symm
      rintro ⟨hr, parent, hparent, -⟩
      apply hnone r parent (hkeeps.parentReq.trans hr)
      rw [parentOf_of_some (hkeeps.parentReq.trans hr)]
      exact hparent
  obtain ⟨hconsistent, hsame, hparents, hinterval, htokenizer, hleft⟩ := hdropped
  refine ⟨p₂.removeParent rs', hfinish, hconsistent, fun id' => ?_, hparents, hinterval, htokenizer, hleft⟩
  rw [hsame]
  exact hstates id'

/-- An update of the prompt keeps the request. -/
theorem keeps_applyStreamingUpdate (hready : rs.Ready) (halone : rs.parentReq = none)
    (update : StreamingUpdate) (chunks : Option (List StreamingUpdate)) :
    Keeps rs { rs.applyStreamingUpdate update with inputChunkQueue := chunks } ∧
      RequestState.Ready { rs.applyStreamingUpdate update with inputChunkQueue := chunks } ∧
      ∀ o, rs.Answers o →
        RequestState.Answers { rs.applyStreamingUpdate update with inputChunkQueue := chunks } o := by
  refine ⟨⟨rfl, rfl, rfl, rfl, fun hparent => ?_⟩, ⟨Or.inl rfl, hready.tools⟩, fun o ho => ho⟩
  rw [halone] at hparent
  cases hparent

/-- A session goes on behind the end of an input. -/
theorem complete_session (hready : rs.Ready) (halone : rs.parentReq = none)
    (hsession : rs.streamingInput = true) (p : OutputProcessor L) (o : EngineCoreOutput L) :
    ∃ rs', p.complete rs o = .ok (p.setState rs', []) ∧ Keeps rs rs' ∧ rs'.Ready ∧
      ∀ o, rs.Answers o → rs'.Answers o := by
  unfold complete
  rw [if_pos hsession]
  split
  case h_1 update chunks hchunks =>
    exact ⟨_, rfl, keeps_applyStreamingUpdate hready halone update (some chunks)⟩
  case h_2 =>
    exact ⟨_, rfl, ⟨rfl, rfl, rfl, rfl, fun _ => ⟨rfl, rfl, rfl⟩⟩, ⟨hready.prompt, hready.tools⟩,
      fun o ho => ho⟩

/-- `process_outputs` for an output of a live request. -/
theorem processLive_ok (h : Consistent queue fanOuts p []) (hrs : p.requestStates.get? id = some rs)
    {o : EngineCoreOutput L} (ho : rs.Answers o) :
    ∃ p' outputs aborts finishReason, p.processLive rs o = .ok (p', outputs, aborts) ∧
      Consistent queue fanOuts p' [] ∧ Processed p p' rs finishReason ∧
      ∃ rs₁ stopReason, rs.decodeOutput o = .ok (rs₁, finishReason, stopReason) := by
  have hkey := h.key id rs hrs
  obtain ⟨rs', parent', output, finishReason, hadvance, hsame, hready, hreported, hdecode⟩ :=
    RequestState.advance_ok (h.ready id rs hrs) (h.childOf hrs) ho
  have hkey' : rs'.requestId = id := hsame.requestId.trans hkey
  let stored : OutputProcessor L := (p.setState rs').setParent rs'.parentReq parent'
  let p₁ : OutputProcessor L := if rs'.queue then stored.put rs' output else stored
  -- the state behind the output
  have hstored : (∀ id', p₁.requestStates.get? id' =
        if id' = id then some rs' else p.requestStates.get? id') ∧
      ParentsMove p p₁ rs finishReason ∧ p₁.externalReqIds = p.externalReqIds ∧
      p₁.parentRequests = p.parentRequests ∧ p₁.streamInterval = p.streamInterval ∧
      p₁.tokenizer = p.tokenizer := by
    have hmove : ParentsMove p stored rs finishReason :=
      parentsMove_setParent hreported (rfl : (p.setState rs').parents = p.parents) hsame.parentReq
    have hstates : ∀ id', stored.requestStates.get? id' =
        if id' = id then some rs' else p.requestStates.get? id' := by
      intro id'
      rw [setParent_requestStates]
      show (p.requestStates.set rs'.requestId rs').get? id' = _
      rw [Dict.get?_set, hkey']
    have hfields : stored.externalReqIds = p.externalReqIds ∧
        stored.parentRequests = p.parentRequests ∧ stored.streamInterval = p.streamInterval ∧
        stored.tokenizer = p.tokenizer :=
      ⟨setParent_externalReqIds _ _ _, setParent_parentRequests _ _ _, setParent_streamInterval _ _ _,
        setParent_tokenizer _ _ _⟩
    have hput : p₁ = stored.put rs' output ∨ p₁ = stored := by
      by_cases hqueue : rs'.queue = true
      · exact Or.inl (if_pos hqueue)
      · exact Or.inr (if_neg hqueue)
    rcases hput with hput | hput
    · rw [hput]
      exact ⟨hstates, hmove, hfields⟩
    · rw [hput]
      exact ⟨hstates, hmove, hfields⟩
  obtain ⟨hstates, hmove, hexternal, hparentRequests, hinterval, htokenizer⟩ := hstored
  have hprocess : p.processLive rs o = p₁.completeFor rs' o finishReason >>= fun r =>
      .ok (r.1, if rs'.queue then [] else output.toList, r.2) := by
    unfold processLive
    rw [hadvance]
    rfl
  have hothers : ∀ id', id' ≠ id → p₁.requestStates.get? id' = p.requestStates.get? id' := by
    intro id' hne
    rw [hstates, if_neg hne]
  rw [hprocess]
  cases finishReason with
  | none =>
    refine ⟨p₁, _, [], none, rfl,
      h.served hrs hsame.keeps hready hmove hstates hexternal hparentRequests, ?_, hdecode⟩
    constructor
    case parents => exact hmove
    case others => exact hkey ▸ hothers
    case stays =>
      intro _
      rw [hkey, hstates, if_pos rfl]
      exact ⟨rs', rfl, hsame.keeps, fun o ho => hsame.answers ho⟩
    case ends => exact fun hended => (by cases hended)
    case parentRequests =>
      intro q
      rw [hparentRequests]
      simp
    case streamInterval => exact hinterval
    case tokenizer => exact htokenizer
  | some reason =>
    cases hsession : rs'.streamingInput with
    | true =>
      have halone : rs.parentReq = none := by
        cases hq : rs.parentReq with
        | none => rfl
        | some q =>
          have hclosed := (h.child id rs q hrs hq).streamingInput
          rw [← hsame.streamingInput, hsession] at hclosed
          cases hclosed
      obtain ⟨rs'', hcomplete, hkeeps, hready', hanswers⟩ :=
        complete_session hready (hsame.parentReq.trans halone) hsession p₁ o
      have hkey'' : rs''.requestId = id := hkeeps.requestId.trans hkey'
      have hkeeps' : Keeps rs rs'' := by
        refine ⟨hkeeps.requestId.trans hsame.requestId, hkeeps.externalReqId.trans hsame.externalReqId,
          hkeeps.parentReq.trans hsame.parentReq, hkeeps.queue.trans hsame.queue, fun hparent => ?_⟩
        rw [halone] at hparent
        cases hparent
      have hstates' : ∀ id', (p₁.setState rs'').requestStates.get? id' =
          if id' = id then some rs'' else p.requestStates.get? id' := by
        intro id'
        show (p₁.requestStates.set rs''.requestId rs'').get? id' = _
        rw [Dict.get?_set, hkey'']
        by_cases hid : id' = id
        · rw [if_pos hid, if_pos hid]
        · rw [if_neg hid, if_neg hid, hothers id' hid]
      -- it has no parent that could see its end
      have hmove' : ParentsMove p (p₁.setState rs'') rs none := by
        obtain ⟨moved, -, hparents⟩ := hmove
        refine ⟨none, by rw [parentOf_of_none halone]; exact .alone, fun r => ?_⟩
        show p₁.parents r = _
        rw [hparents, halone, if_neg (by simp), if_neg (by simp)]
      have hmove'' : ParentsMove p (p₁.setState rs'') rs (some reason) := hmove
      refine ⟨p₁.setState rs'', if rs'.queue then [] else output.toList, [], some reason, ?_,
        h.served hrs hkeeps' hready' hmove' hstates' hexternal hparentRequests, ?_, hdecode⟩
      · unfold completeFor
        rw [hcomplete]
        rfl
      constructor
      case parents => exact hmove''
      case others =>
        intro id' hne
        rw [hstates', if_neg (hkey ▸ hne)]
      case stays =>
        intro _
        rw [hkey, hstates', if_pos rfl]
        exact ⟨rs'', rfl, hkeeps', fun o ho => hanswers o (hsame.answers ho)⟩
      case ends =>
        intro _ hclosed
        rw [← hsame.streamingInput, hsession] at hclosed
        cases hclosed
      case parentRequests =>
        intro q
        show q ∈ p₁.parentRequests ↔ _
        rw [hparentRequests, halone]
        simp
      case streamInterval => exact hinterval
      case tokenizer => exact htokenizer
    | false =>
      obtain ⟨p', hfinish, h', hstates', hparents', hinterval', htokenizer', hleft⟩ :=
        finishRequest_ok h hrs hsame.keeps (by rw [hstates, if_pos rfl]; rfl) hothers
          (Or.inl ⟨_, hmove⟩) hexternal hparentRequests
      have hcomplete : p₁.complete rs' o =
          .ok (p', if o.finishReason = none then [rs'.requestId] else []) := by
        unfold complete
        rw [if_neg (by simp [hsession]), hfinish]
        rfl
      refine ⟨p', if rs'.queue then [] else output.toList,
        if o.finishReason = none then [rs'.requestId] else [], some reason, ?_, h', ?_, hdecode⟩
      · unfold completeFor
        rw [hcomplete]
        rfl
      constructor
      case parents =>
        obtain ⟨moved, hreported, hparents⟩ := hmove
        exact ⟨moved, hreported, fun r => by rw [hparents', hparents]⟩
      case others =>
        intro id' hne
        rw [hstates', if_neg (hkey ▸ hne)]
      case stays =>
        intro hopen
        rcases hopen with hopen | hopen
        · cases hopen
        · rw [← hsame.streamingInput, hsession] at hopen
          cases hopen
      case ends =>
        intro _ _
        rw [hkey, hstates', if_pos rfl]
      case parentRequests =>
        intro q
        have hchildless : Childless p' q ↔ Childless p₁ q := by
          unfold Childless
          rw [hparents']
        rw [hleft, hchildless]
        simp
      case streamInterval => exact hinterval'.trans hinterval
      case tokenizer => exact htokenizer'.trans htokenizer

end OutputProcessor

end Yuan.Frontend
