import Yuan.Frontend.RequestOutputs

/-!
# The indexes of the output processor

The invariant that ties the maps of the output processor together. While an abort is under way, the ids to
abort are `pending`: they have left the index of external ids, but their requests are still there.
-/

namespace Yuan.Frontend

variable {L : Type} {rs : RequestState L} {q : String} {parent : ParentRequest L} {finishReason : Option FinishReason}

open ParentRequest (childReqId)

/-- A parent and its fan-out: the children that have not finished are among those that were registered. -/
structure FansOut (q : String) (fanOut : FanOut) (parent : ParentRequest L) : Prop where
  requestId : parent.requestId = q
  samplingParams : parent.samplingParams = fanOut.params
  childParams : ∀ params, parent.cachedChildSamplingParams = some params →
    params.outputKind = fanOut.params.outputKind
  room : fanOut.params.outputKind = .finalOnly → parent.outputAggregator.length = fanOut.params.n
  next : fanOut.next ≤ fanOut.params.n
  children : ∀ c ∈ parent.childRequests, ∃ i, i < fanOut.next ∧ c = childReqId q i
  nodup : parent.childRequests.Nodup
  valid : fanOut.request.Valid ∧ fanOut.request.resumable = false

/-- A live child of `q`. -/
structure LiveChild (fanOuts : String → Option FanOut) (p : OutputProcessor L) (rs : RequestState L)
    (q : String) : Prop where
  parent : ∃ parent fanOut, p.parents q = some parent ∧ fanOuts q = some fanOut ∧
    rs.requestId ∈ parent.childRequests ∧ rs.requestIndex < fanOut.next ∧
    rs.outputKind = fanOut.params.outputKind
  requestId : rs.requestId = childReqId q rs.requestIndex
  streamingInput : rs.streamingInput = false
  parentRequests : q ∈ p.parentRequests

/-- The maps agree, but for the `pending` ids. -/
structure Consistent (queue : Bool) (fanOuts : String → Option FanOut) (p : OutputProcessor L)
    (pending : List String) : Prop where
  key : ∀ id rs, p.requestStates.get? id = some rs → rs.requestId = id
  ready : ∀ id rs, p.requestStates.get? id = some rs → rs.Ready
  queued : ∀ id rs, p.requestStates.get? id = some rs → rs.queue = queue
  listed : ∀ ext id, id ∈ (p.externalReqIds.get? ext).getD [] ↔
    id ∉ pending ∧ ∃ rs, p.requestStates.get? id = some rs ∧ rs.externalReqId = ext
  lists : ∀ ext ids, p.externalReqIds.get? ext = some ids → ids ≠ [] ∧ ids.Nodup
  fansOut : ∀ q parent, p.parents q = some parent →
    ∃ fanOut, fanOuts q = some fanOut ∧ FansOut q fanOut parent
  child : ∀ id rs q, p.requestStates.get? id = some rs → rs.parentReq = some q →
    LiveChild fanOuts p rs q
  alone : ∀ id rs, p.requestStates.get? id = some rs → rs.parentReq = none →
    ∀ q i, (p.parents q).isSome → id ≠ childReqId q i
  distinct : ∀ q, (p.parents q).isSome → p.requestStates.get? q = none ∧
    ∀ r i, (p.parents r).isSome → q ≠ childReqId r i
  parentRequests : ∀ q ∈ p.parentRequests, (p.parents q).isSome
  parentsNodup : p.parentRequests.Nodup

/-- What an operation keeps of a request. -/
structure Keeps (rs rs' : RequestState L) : Prop where
  requestId : rs'.requestId = rs.requestId
  externalReqId : rs'.externalReqId = rs.externalReqId
  parentReq : rs'.parentReq = rs.parentReq
  queue : rs'.queue = rs.queue
  child : rs.parentReq.isSome → rs'.requestIndex = rs.requestIndex ∧ rs'.outputKind = rs.outputKind ∧
    rs'.streamingInput = rs.streamingInput

theorem SameRequest.keeps {rs' : RequestState L} (h : SameRequest rs rs') : Keeps rs rs' :=
  ⟨h.requestId, h.externalReqId, h.parentReq, h.queue,
    fun _ => ⟨h.requestIndex, h.outputKind, h.streamingInput⟩⟩

/-- What an operation keeps of a parent: only children that finish leave it. -/
structure ParentRequest.Shrinks (q q' : ParentRequest L) : Prop where
  requestId : q'.requestId = q.requestId
  samplingParams : q'.samplingParams = q.samplingParams
  cachedChildSamplingParams : q'.cachedChildSamplingParams = q.cachedChildSamplingParams
  room : q'.outputAggregator.length = q.outputAggregator.length
  childRequests : q'.childRequests.Sublist q.childRequests

theorem ParentRequest.Shrinks.rfl' (q : ParentRequest L) : q.Shrinks q :=
  ⟨rfl, rfl, rfl, rfl, List.Sublist.refl _⟩

theorem ParentRequest.Collects.shrinks {q q' : ParentRequest L} {id : String} {c : CompletionOutput L}
    {outputs : List (Option (CompletionOutput L))} (h : q.Collects id c q' outputs) : q.Shrinks q' := by
  refine ⟨h.requestId, h.samplingParams, h.cachedChildSamplingParams, ?_, ?_⟩
  · rw [h.outputAggregator]
    split
    · exact List.length_set
    · rfl
  · rw [h.childRequests]
    split
    · exact List.erase_sublist
    · exact List.Sublist.refl _

theorem FansOut.shrinks {fanOut : FanOut} {parent' : ParentRequest L} (h : FansOut q fanOut parent)
    (hshrinks : parent.Shrinks parent') : FansOut q fanOut parent' where
  requestId := hshrinks.requestId.trans h.requestId
  samplingParams := hshrinks.samplingParams.trans h.samplingParams
  childParams := by
    rw [hshrinks.cachedChildSamplingParams]
    exact h.childParams
  room := fun hkind => hshrinks.room.trans (h.room hkind)
  next := h.next
  children := fun c hc => h.children c (hshrinks.childRequests.subset hc)
  nodup := hshrinks.childRequests.nodup h.nodup
  valid := h.valid

/-- The parent of a request sees an output of it, and no other parent does. -/
def ParentsMove (p p' : OutputProcessor L) (rs : RequestState L) (finishReason : Option FinishReason) :
    Prop :=
  ∃ parent', Reported rs finishReason (p.parentOf rs) parent' ∧
    ∀ r, p'.parents r = if rs.parentReq = some r then parent' else p.parents r

theorem ParentsMove.isSome {p p' : OutputProcessor L} (h : ParentsMove p p' rs finishReason) (q : String) :
    (p'.parents q).isSome = (p.parents q).isSome := by
  obtain ⟨parent', hreported, hparents⟩ := h
  rw [hparents]
  split
  case isTrue hq =>
    rw [← OutputProcessor.parentOf_of_some hq]
    exact hreported.isSome
  case isFalse => rfl

/-- A child that does not finish stays a child. -/
theorem ParentsMove.shrinks {p p' : OutputProcessor L} (h : ParentsMove p p' rs finishReason)
    {parent' : ParentRequest L} (hparent : p.parents q = some parent) (hparent' : p'.parents q = some parent') :
    parent.Shrinks parent' ∧ ∀ c ∈ parent.childRequests, finishReason = none ∨ c ≠ rs.requestId →
      c ∈ parent'.childRequests := by
  obtain ⟨moved, hreported, hparents⟩ := h
  rw [hparents] at hparent'
  split at hparent'
  case isTrue hq =>
    rw [OutputProcessor.parentOf_of_some hq, hparent, hparent'] at hreported
    cases hreported with
    | skipped q hunfinished => exact ⟨.rfl' parent, fun c hc _ => hc⟩
    | reported q q' c outputs hindex hfinished hfinal hcollects =>
      refine ⟨hcollects.shrinks, fun child hchild hstays => ?_⟩
      rw [hcollects.childRequests]
      split
      case isTrue hended =>
        rcases hstays with rfl | hne
        · rw [hfinished] at hended
          cases hended
        · exact (List.mem_erase_of_ne hne).mpr hchild
      case isFalse => exact hchild
  case isFalse =>
    cases hparent.symm.trans hparent'
    exact ⟨.rfl' parent, fun c hc _ => hc⟩

namespace OutputProcessor

/-- The parents when a state is stored with the parent that its output led to. -/
theorem parentsMove_setParent {p p' : OutputProcessor L} {parent' : Option (ParentRequest L)}
    (hreported : Reported rs finishReason (p.parentOf rs) parent') (hparents : p'.parents = p.parents)
    {parentReq : Option String} (hsame : parentReq = rs.parentReq) :
    ParentsMove p (p'.setParent parentReq parent') rs finishReason := by
  refine ⟨parent', hreported, fun r => ?_⟩
  subst hsame
  unfold setParent
  cases hq : rs.parentReq with
  | none =>
    exact congrFun hparents r
  | some q =>
    cases parent' with
    | none =>
      rw [parentOf_of_some hq] at hreported
      have hnone : p.parents q = none :=
        Option.not_isSome_iff_eq_none.mp (by rw [← hreported.isSome]; simp)
      rw [hparents]
      split
      case isTrue hr =>
        cases hr
        exact hnone
      case isFalse => rfl
    | some moved =>
      dsimp only
      rw [hparents, Function.update_apply]
      by_cases hr : r = q
      · rw [if_pos hr, if_pos (by rw [hr])]
      · rw [if_neg hr, if_neg (fun h => hr (Option.some.inj h).symm)]

/-- The index of external ids without one internal id. -/
def withoutId (externalReqIds : Dict String (List String)) (externalReqId id : String) :
    Dict String (List String) :=
  let rest := ((externalReqIds.get? externalReqId).getD []).erase id
  if rest = [] then externalReqIds.erase externalReqId else externalReqIds.set externalReqId rest

theorem removeInternalId_ok {p : OutputProcessor L}
    (h : rs.requestId ∈ (p.externalReqIds.get? rs.externalReqId).getD []) :
    p.removeInternalId rs =
      .ok { p with externalReqIds := withoutId p.externalReqIds rs.externalReqId rs.requestId } := by
  unfold removeInternalId withoutId
  dsimp only
  rw [if_pos h]
  split <;> rfl

/-- Lists without repetitions and without an empty one stay so. -/
theorem withoutId_lists {externalReqIds : Dict String (List String)}
    (h : ∀ ext ids, externalReqIds.get? ext = some ids → ids ≠ [] ∧ ids.Nodup)
    (externalReqId id ext : String) (ids : List String)
    (hids : (withoutId externalReqIds externalReqId id).get? ext = some ids) : ids ≠ [] ∧ ids.Nodup := by
  unfold withoutId at hids
  dsimp only at hids
  split at hids
  · rw [Dict.get?_erase] at hids
    split at hids
    · cases hids
    · exact h ext ids hids
  case isFalse hne =>
    rw [Dict.get?_set] at hids
    split at hids
    · cases hids
      refine ⟨hne, List.Nodup.erase id ?_⟩
      cases hold : externalReqIds.get? externalReqId with
      | none => exact List.nodup_nil
      | some old => exact (h externalReqId old hold).2
    · exact h ext ids hids

theorem mem_withoutId {externalReqIds : Dict String (List String)}
    (h : ∀ ext ids, externalReqIds.get? ext = some ids → ids ≠ [] ∧ ids.Nodup) (externalReqId id ext id' : String) :
    id' ∈ ((withoutId externalReqIds externalReqId id).get? ext).getD [] ↔
      id' ∈ (externalReqIds.get? ext).getD [] ∧ ¬ (ext = externalReqId ∧ id' = id) := by
  have hnodup : ((externalReqIds.get? externalReqId).getD []).Nodup := by
    cases hold : externalReqIds.get? externalReqId with
    | none => exact List.nodup_nil
    | some old => exact (h externalReqId old hold).2
  unfold withoutId
  dsimp only
  by_cases hext : ext = externalReqId
  · subst hext
    have herase : id' ∈ ((externalReqIds.get? ext).getD []).erase id ↔
        id' ∈ (externalReqIds.get? ext).getD [] ∧ ¬ (ext = ext ∧ id' = id) := by
      rw [hnodup.mem_erase_iff, and_comm]
      simp
    rw [← herase]
    split
    case isTrue hnil =>
      rw [Dict.get?_erase_self, hnil]
      rfl
    case isFalse => rw [Dict.get?_set_self, Option.getD_some]
  · split
    · rw [Dict.get?_erase_of_ne _ hext]
      simp [hext]
    · rw [Dict.get?_set_of_ne _ _ hext]
      simp [hext]

end OutputProcessor

namespace Consistent

variable {queue : Bool} {fanOuts : String → Option FanOut} {p p' : OutputProcessor L}
  {pending pending' : List String} {id : String} {rs rs' : RequestState L}

section

variable (h : Consistent queue fanOuts p pending)
include h

/-- An operation that adds nothing: requests are kept or removed, parents lose children that are no
longer live. -/
theorem shrink (hstates : ∀ id rs', p'.requestStates.get? id = some rs' →
      ∃ rs, p.requestStates.get? id = some rs ∧ Keeps rs rs' ∧ rs'.Ready)
    (hparents : ∀ q, (p'.parents q).isSome = (p.parents q).isSome)
    (hshrinks : ∀ q parent parent', p.parents q = some parent → p'.parents q = some parent' →
      parent.Shrinks parent' ∧ ∀ id rs', p'.requestStates.get? id = some rs' → rs'.parentReq = some q →
        id ∈ parent.childRequests → id ∈ parent'.childRequests)
    (hlisted : ∀ ext id, id ∈ (p'.externalReqIds.get? ext).getD [] ↔
      id ∉ pending' ∧ ∃ rs, p'.requestStates.get? id = some rs ∧ rs.externalReqId = ext)
    (hlists : ∀ ext ids, p'.externalReqIds.get? ext = some ids → ids ≠ [] ∧ ids.Nodup)
    (hparentRequests : p'.parentRequests.Sublist p.parentRequests)
    (hused : ∀ id rs' q, p'.requestStates.get? id = some rs' → rs'.parentReq = some q →
      q ∈ p.parentRequests → q ∈ p'.parentRequests) : Consistent queue fanOuts p' pending' where
  key := by
    intro id rs' hrs'
    obtain ⟨rs, hrs, hkeeps, -⟩ := hstates id rs' hrs'
    exact hkeeps.requestId.trans (h.key id rs hrs)
  ready := fun id rs' hrs' => (hstates id rs' hrs').choose_spec.2.2
  queued := by
    intro id rs' hrs'
    obtain ⟨rs, hrs, hkeeps, -⟩ := hstates id rs' hrs'
    exact hkeeps.queue.trans (h.queued id rs hrs)
  listed := hlisted
  lists := hlists
  fansOut := by
    intro q parent' hparent'
    obtain ⟨parent, hparent⟩ := Option.isSome_iff_exists.mp
      ((hparents q).symm.trans (by rw [hparent']; rfl))
    obtain ⟨fanOut, hfanOut, hfans⟩ := h.fansOut q parent hparent
    exact ⟨fanOut, hfanOut, hfans.shrinks (hshrinks q parent parent' hparent hparent').1⟩
  child := by
    intro id rs' q hrs' hq
    obtain ⟨rs, hrs, hkeeps, -⟩ := hstates id rs' hrs'
    have hlive := h.child id rs q hrs (hkeeps.parentReq ▸ hq)
    obtain ⟨parent, fanOut, hparent, hfanOut, hmem, hindex, hkind⟩ := hlive.parent
    obtain ⟨parent', hparent'⟩ := Option.isSome_iff_exists.mp
      ((hparents q).trans (by rw [hparent]; rfl))
    obtain ⟨hindex', hkind', hstreaming'⟩ := hkeeps.child (by rw [← hkeeps.parentReq, hq]; rfl)
    have hmem' : id ∈ parent.childRequests := h.key id rs hrs ▸ hmem
    have hkey' : rs'.requestId = id := hkeeps.requestId.trans (h.key id rs hrs)
    constructor
    case parent =>
      refine ⟨parent', fanOut, hparent', hfanOut, ?_, hindex' ▸ hindex, hkind'.trans hkind⟩
      rw [hkey']
      exact (hshrinks q parent parent' hparent hparent').2 id rs' hrs' hq hmem'
    case requestId =>
      rw [hkeeps.requestId, hindex']
      exact hlive.requestId
    case streamingInput => exact hstreaming'.trans hlive.streamingInput
    case parentRequests => exact hused id rs' q hrs' hq hlive.parentRequests
  alone := by
    intro id rs' hrs' halone q i hq
    obtain ⟨rs, hrs, hkeeps, -⟩ := hstates id rs' hrs'
    exact h.alone id rs hrs (hkeeps.parentReq ▸ halone) q i (hparents q ▸ hq)
  distinct := by
    intro q hq
    obtain ⟨hnone, hne⟩ := h.distinct q (hparents q ▸ hq)
    refine ⟨?_, fun r i hr => hne r i (hparents r ▸ hr)⟩
    cases hlive : p'.requestStates.get? q with
    | none => rfl
    | some rs' =>
      obtain ⟨rs, hrs, -⟩ := hstates q rs' hlive
      cases hnone.symm.trans hrs
  parentRequests := by
    intro q hq
    rw [hparents]
    exact h.parentRequests q (hparentRequests.subset hq)
  parentsNodup := hparentRequests.nodup h.parentsNodup

/-- A live request fits its parent. -/
theorem childOf (hrs : p.requestStates.get? id = some rs) : rs.ChildOf (p.parentOf rs) := by
  intro parent hparent
  obtain ⟨q, hq, hparent⟩ := Option.bind_eq_some_iff.mp hparent
  obtain ⟨parent', fanOut, hparent', hfanOut, -, hindex, hkind⟩ := (h.child id rs q hrs hq).parent
  cases hparent.symm.trans hparent'
  obtain ⟨fanOut', hfanOut', hfans⟩ := h.fansOut q parent hparent
  cases hfanOut.symm.trans hfanOut'
  refine ⟨(congrArg SamplingParams.outputKind hfans.samplingParams).trans hkind.symm, by rw [hq]; rfl, ?_⟩
  intro hfinal
  rw [hfans.room (hkind ▸ hfinal)]
  exact Nat.lt_of_lt_of_le hindex hfans.next

/-- What lives under the id of a child is a child. -/
theorem parentReq_of_child (hparent : p.parents q = some parent) {c : String} (hc : c ∈ parent.childRequests)
    (hrs : p.requestStates.get? c = some rs) : rs.parentReq = some q := by
  obtain ⟨fanOut, -, hfans⟩ := h.fansOut q parent hparent
  obtain ⟨i, -, rfl⟩ := hfans.children c hc
  cases hq : rs.parentReq with
  | none => exact absurd rfl (h.alone _ rs hrs hq q i (by rw [hparent]; rfl))
  | some r =>
    have hid := (h.key _ rs hrs).symm.trans (h.child _ rs r hrs hq).requestId
    rw [(ParentRequest.childReqId_inj hid).1]

/-- A request is served. -/
theorem served (hrs : p.requestStates.get? id = some rs) (hkeeps : Keeps rs rs') (hready : rs'.Ready)
    (hmove : ParentsMove p p' rs none) (hstates : ∀ id', p'.requestStates.get? id' =
      if id' = id then some rs' else p.requestStates.get? id') (hexternal : p'.externalReqIds = p.externalReqIds)
    (hparentRequests : p'.parentRequests = p.parentRequests) : Consistent queue fanOuts p' pending := by
  have hlive : ∀ id' rs₁, p'.requestStates.get? id' = some rs₁ →
      ∃ rs₀, p.requestStates.get? id' = some rs₀ ∧ Keeps rs₀ rs₁ ∧ rs₁.Ready := by
    intro id' rs₁ hrs₁
    rw [hstates] at hrs₁
    split at hrs₁
    case isTrue hid =>
      cases hrs₁
      exact ⟨rs, hid ▸ hrs, hkeeps, hready⟩
    case isFalse =>
      exact ⟨rs₁, hrs₁, ⟨rfl, rfl, rfl, rfl, fun _ => ⟨rfl, rfl, rfl⟩⟩, h.ready id' rs₁ hrs₁⟩
  apply h.shrink hlive hmove.isSome
  case hshrinks =>
    intro q parent parent' hparent hparent'
    obtain ⟨hshrinks, hstay⟩ := hmove.shrinks hparent hparent'
    exact ⟨hshrinks, fun id' rs₁ _ _ hmem => hstay id' hmem (Or.inl rfl)⟩
  case hlisted =>
    intro ext id'
    rw [hexternal, h.listed]
    refine and_congr_right fun _ => ?_
    rw [hstates]
    split
    case isTrue hid =>
      subst hid
      constructor
      · rintro ⟨rs₀, hrs₀, hext⟩
        cases hrs.symm.trans hrs₀
        exact ⟨rs', rfl, hkeeps.externalReqId.trans hext⟩
      · rintro ⟨rs₁, hrs₁, hext⟩
        cases hrs₁
        exact ⟨rs, hrs, hkeeps.externalReqId.symm.trans hext⟩
    case isFalse => exact Iff.rfl
  case hlists =>
    rw [hexternal]
    exact h.lists
  case hparentRequests => rw [hparentRequests]
  case hused =>
    intro _ _ q _ _ hq
    rw [hparentRequests]
    exact hq

/-- A request that has left the index of external ids ends. -/
theorem ended (hrs : p.requestStates.get? id = some rs) (hid : id ∈ pending)
    (hmove : (∃ finishReason, ParentsMove p p' rs finishReason) ∨
      p'.parents = p.parents) (hstates : ∀ id', p'.requestStates.get? id' =
      if id' = id then none else p.requestStates.get? id') (hexternal : p'.externalReqIds = p.externalReqIds)
    (hparentRequests : p'.parentRequests = p.parentRequests)
    (hpending : ∀ id', id' ≠ id → (id' ∈ pending' ↔ id' ∈ pending)) : Consistent queue fanOuts p' pending' := by
  have hgone : ∀ id' rs₁, p'.requestStates.get? id' = some rs₁ →
      id' ≠ id ∧ p.requestStates.get? id' = some rs₁ := by
    intro id' rs₁ hrs₁
    rw [hstates] at hrs₁
    split at hrs₁
    case isTrue => cases hrs₁
    case isFalse hne => exact ⟨hne, hrs₁⟩
  have hparents : ∀ q, (p'.parents q).isSome = (p.parents q).isSome := by
    intro q
    rcases hmove with ⟨finishReason, hmove⟩ | hsame
    · exact hmove.isSome q
    · rw [hsame]
  apply h.shrink ?_ hparents
  case hshrinks =>
    intro q parent parent' hparent hparent'
    rcases hmove with ⟨finishReason, hmove⟩ | hsame
    · obtain ⟨hshrinks, hstay⟩ := hmove.shrinks hparent hparent'
      refine ⟨hshrinks, fun id' rs₁ hrs₁ _ hmem => hstay id' hmem (Or.inr ?_)⟩
      rw [h.key id rs hrs]
      exact (hgone id' rs₁ hrs₁).1
    · rw [hsame] at hparent'
      cases hparent.symm.trans hparent'
      exact ⟨.rfl' parent, fun _ _ _ _ hmem => hmem⟩
  case hlisted =>
    intro ext id'
    rw [hexternal, h.listed]
    by_cases hne : id' = id
    · subst hne
      refine iff_of_false (fun hlisted => hlisted.1 hid) ?_
      rintro ⟨-, rs₁, hrs₁, -⟩
      exact (hgone id' rs₁ hrs₁).1 rfl
    · rw [hpending id' hne, hstates, if_neg hne]
  case hlists =>
    rw [hexternal]
    exact h.lists
  case hparentRequests => rw [hparentRequests]
  case hused =>
    intro _ _ q _ _ hq
    rw [hparentRequests]
    exact hq
  · intro id' rs₁ hrs₁
    exact ⟨rs₁, (hgone id' rs₁ hrs₁).2, ⟨rfl, rfl, rfl, rfl, fun _ => ⟨rfl, rfl, rfl⟩⟩,
      h.ready id' rs₁ (hgone id' rs₁ hrs₁).2⟩

/-- Requests and parents stay: the index of external ids loses pending ids, or parents without a live child
are dropped. -/
theorem unlisted (hstates : p'.requestStates = p.requestStates) (hparents : p'.parents = p.parents)
    (hlisted : ∀ ext id, id ∈ (p'.externalReqIds.get? ext).getD [] ↔
      id ∉ pending' ∧ ∃ rs, p.requestStates.get? id = some rs ∧ rs.externalReqId = ext)
    (hlists : ∀ ext ids, p'.externalReqIds.get? ext = some ids → ids ≠ [] ∧ ids.Nodup)
    (hparentRequests : p'.parentRequests.Sublist p.parentRequests)
    (hused : ∀ id rs q, p.requestStates.get? id = some rs → rs.parentReq = some q →
      q ∈ p.parentRequests → q ∈ p'.parentRequests) : Consistent queue fanOuts p' pending' := by
  apply h.shrink ?_ (fun q => by rw [hparents])
  case hshrinks =>
    intro q parent parent' hparent hparent'
    rw [hparents] at hparent'
    cases hparent.symm.trans hparent'
    exact ⟨.rfl' parent, fun _ _ _ _ hmem => hmem⟩
  case hlisted =>
    rw [hstates]
    exact hlisted
  case hlists => exact hlists
  case hparentRequests => exact hparentRequests
  case hused =>
    rw [hstates]
    exact hused
  · rw [hstates]
    exact fun id rs hrs => ⟨rs, hrs, ⟨rfl, rfl, rfl, rfl, fun _ => ⟨rfl, rfl, rfl⟩⟩, h.ready id rs hrs⟩

/-- Only the live ids matter among those that are pending. -/
theorem pendingSame (hsame : ∀ id, (p.requestStates.get? id).isSome → (id ∈ pending' ↔ id ∈ pending)) :
    Consistent queue fanOuts p pending' where
  key := h.key
  ready := h.ready
  queued := h.queued
  listed := by
    intro ext id
    rw [h.listed]
    refine and_congr_left ?_
    rintro ⟨rs, hrs, -⟩
    exact not_congr (hsame id (by rw [hrs]; rfl)).symm
  lists := h.lists
  fansOut := h.fansOut
  child := h.child
  alone := h.alone
  distinct := h.distinct
  parentRequests := h.parentRequests
  parentsNodup := h.parentsNodup

/-- One internal id leaves the index of external ids. -/
theorem unlistedOne (hrs : p.requestStates.get? id = some rs) (hstates : p'.requestStates = p.requestStates)
    (hparents : p'.parents = p.parents) (hexternal : p'.externalReqIds =
      OutputProcessor.withoutId p.externalReqIds rs.externalReqId rs.requestId)
    (hparentRequests : p'.parentRequests = p.parentRequests)
    (hpending : ∀ id', id' ∈ pending' ↔ id' = id ∨ id' ∈ pending) : Consistent queue fanOuts p' pending' := by
  apply h.unlisted hstates hparents
  case hlisted =>
    intro ext id'
    rw [hexternal, OutputProcessor.mem_withoutId h.lists, h.listed, h.key id rs hrs, hpending, not_or]
    constructor
    · rintro ⟨⟨hnew, rs', hrs', hext⟩, hne⟩
      refine ⟨⟨?_, hnew⟩, rs', hrs', hext⟩
      rintro rfl
      cases hrs.symm.trans hrs'
      exact hne ⟨hext.symm, rfl⟩
    · rintro ⟨⟨hid, hnew⟩, hlive⟩
      exact ⟨⟨hnew, hlive⟩, fun hsame => hid hsame.2⟩
  case hlists =>
    intro ext ids hids
    rw [hexternal] at hids
    exact OutputProcessor.withoutId_lists h.lists _ _ ext ids hids
  case hparentRequests => rw [hparentRequests]
  case hused =>
    intro _ _ q _ _ hq
    rw [hparentRequests]
    exact hq

/-- A parent without a live child is dropped. -/
theorem parentDropped (hstates : p'.requestStates = p.requestStates) (hparents : p'.parents = p.parents)
    (hexternal : p'.externalReqIds = p.externalReqIds) (hparentRequests : p'.parentRequests = p.parentRequests.erase q)
    (hnone : ∀ id rs, p.requestStates.get? id = some rs → rs.parentReq ≠ some q) :
    Consistent queue fanOuts p' pending := by
  apply h.unlisted hstates hparents
  case hlisted =>
    rw [hexternal]
    exact h.listed
  case hlists =>
    rw [hexternal]
    exact h.lists
  case hparentRequests =>
    rw [hparentRequests]
    exact List.erase_sublist
  case hused =>
    intro id rs r hrs hr hmem
    rw [hparentRequests]
    refine (List.mem_erase_of_ne ?_).mpr hmem
    rintro rfl
    exact hnone id rs hrs hr

end

end Consistent

end Yuan.Frontend
