import Yuan.Frontend.RequestIndexes

/-!
# Aborts

An abort takes its ids out of the index of external ids first, and removes the requests then, one by one. An
id of a parent stands for the children that are left. What holds of the ids that are still to be aborted is
carried along as a parameter.
-/

namespace Yuan.Frontend

variable {L : Type} {queue : Bool} {fanOuts : String → Option FanOut} {p p' : OutputProcessor L}
  {pending ids : List String} {id : String} {rs : RequestState L}

/-- A live request is aborted: with a queue its parent sees a last completion. -/
structure Ended (queue : Bool) (p p' : OutputProcessor L) (rs : RequestState L) : Prop where
  requestStates : p'.requestStates = p.requestStates.erase rs.requestId
  externalReqIds : p'.externalReqIds = p.externalReqIds
  parentRequests : p'.parentRequests = p.parentRequests
  streamInterval : p'.streamInterval = p.streamInterval
  tokenizer : p'.tokenizer = p.tokenizer
  parents : if queue then ParentsMove p p' rs (some .abort) else p'.parents = p.parents

/-- No id of a parent stands before the id of one of its live children. -/
def ParentsLast (p : OutputProcessor L) : List String → Prop
  | [] => True
  | id :: ids => (id ∈ p.parentRequests → ∀ c rs, p.requestStates.get? c = some rs →
      rs.parentReq = some id → c ∉ ids) ∧ ParentsLast p ids

/-- No live request is named twice. -/
def LiveOnce (p : OutputProcessor L) : List String → Prop
  | [] => True
  | id :: ids => ((p.requestStates.get? id).isSome → id ∉ ids) ∧ LiveOnce p ids

theorem ParentsLast.mono (h : ParentsLast p ids)
    (hstates : ∀ id rs, p'.requestStates.get? id = some rs → p.requestStates.get? id = some rs)
    (hparentRequests : ∀ q ∈ p'.parentRequests, q ∈ p.parentRequests) : ParentsLast p' ids := by
  induction ids with
  | nil => trivial
  | cons id ids ih =>
    obtain ⟨hfirst, hrest⟩ := h
    exact ⟨fun hid c rs hrs => hfirst (hparentRequests id hid) c rs (hstates c rs hrs), ih hrest⟩

theorem LiveOnce.congr (h : LiveOnce p ids) (hstates : p'.requestStates = p.requestStates) : LiveOnce p' ids := by
  induction ids with
  | nil => trivial
  | cons id ids ih => exact ⟨hstates ▸ h.1, ih h.2⟩

theorem liveOnce_of_nodup (h : ids.Nodup) : LiveOnce p ids := by
  induction ids with
  | nil => trivial
  | cons id ids ih =>
    obtain ⟨hnew, hrest⟩ := List.nodup_cons.mp h
    exact ⟨fun _ => hnew, ih hrest⟩

/-- A property of the processor and of the ids to abort that every step of an abort keeps. -/
structure AbortInvariant (queue : Bool) (fanOuts : String → Option FanOut)
    (X : OutputProcessor L → List String → Prop) : Prop where
  relist : ∀ {p ids} externalReqIds, X p ids → X { p with externalReqIds := externalReqIds } ids
  ends : ∀ {p p' id ids rs}, Consistent queue fanOuts p (id :: ids) → p.requestStates.get? id = some rs →
    Ended queue p p' rs → X p (id :: ids) → X p' ids
  gone : ∀ {p id ids}, p.requestStates.get? id = none → id ∉ p.parentRequests → X p (id :: ids) → X p ids
  children : ∀ {p q ids parent}, Consistent queue fanOuts p (q :: ids) → p.parents q = some parent →
    X p (q :: ids) → X p (parent.childRequests ++ q :: ids)
  drops : ∀ {p p' q ids}, (∀ id rs, p.requestStates.get? id = some rs → rs.parentReq ≠ some q) →
    p'.requestStates = p.requestStates → p'.parents = p.parents →
    p'.parentRequests = p.parentRequests.erase q → p.parentRequests.Nodup → X p (q :: ids) → X p' ids

namespace OutputProcessor

/-- The first loop, for internal ids: the live ones leave the index. -/
theorem collectIds_internal (h : Consistent queue fanOuts p pending) (honce : LiveOnce p ids)
    (hnew : ∀ id ∈ ids, (p.requestStates.get? id).isSome → id ∉ pending) :
    ∃ externalReqIds, p.collectIds true ids = .ok ({ p with externalReqIds := externalReqIds }, ids) ∧
      Consistent queue fanOuts { p with externalReqIds := externalReqIds } (ids ++ pending) := by
  induction ids generalizing p pending with
  | nil => exact ⟨p.externalReqIds, rfl, h⟩
  | cons id ids ih =>
    obtain ⟨hfirst, hrest⟩ := honce
    -- one id
    have hone : ∃ externalReqIds, p.collectId true id =
        .ok ({ p with externalReqIds := externalReqIds }, [id]) ∧
        Consistent queue fanOuts { p with externalReqIds := externalReqIds } (id :: pending) := by
      unfold collectId
      cases hlive : p.requestStates.get? id with
      | none =>
        refine ⟨p.externalReqIds, rfl, h.pendingSame fun id' hsome => ?_⟩
        rw [List.mem_cons]
        refine or_iff_right ?_
        rintro rfl
        rw [hlive] at hsome
        cases hsome
      | some rs =>
        have hkey := h.key id rs hlive
        have hlisted : rs.requestId ∈ (p.externalReqIds.get? rs.externalReqId).getD [] :=
          (h.listed _ _).mpr ⟨hkey ▸ hnew id List.mem_cons_self (by rw [hlive]; rfl),
            rs, hkey ▸ hlive, rfl⟩
        dsimp only
        rw [removeInternalId_ok hlisted]
        exact ⟨_, rfl, h.unlistedOne hlive rfl rfl rfl rfl (fun id' => List.mem_cons)⟩
    obtain ⟨externalReqIds, hcollect, hconsistent⟩ := hone
    obtain ⟨externalReqIds', hcollects, hconsistent'⟩ := ih hconsistent (hrest.congr rfl) (by
      intro id' hid' hlive hmem
      rcases List.mem_cons.mp hmem with rfl | hmem
      · exact hfirst hlive hid'
      · exact hnew id' (List.mem_cons_of_mem _ hid') hlive hmem)
    refine ⟨externalReqIds', ?_, ?_⟩
    · unfold collectIds
      rw [hcollect, ok_bind]
      dsimp only
      rw [hcollects]
      rfl
    · apply hconsistent'.pendingSame
      intro id' _
      rw [List.cons_append, List.mem_cons, List.mem_append, List.mem_append, List.mem_cons]
      tauto

/-- The first loop, for external ids: all live requests that have one of them leave the index. -/
theorem collectIds_external (h : Consistent queue fanOuts p pending) (externalIds : List String) :
    ∃ externalReqIds aborted,
      p.collectIds false externalIds = .ok ({ p with externalReqIds := externalReqIds }, aborted) ∧
      Consistent queue fanOuts { p with externalReqIds := externalReqIds } (aborted ++ pending) ∧
      aborted.Nodup ∧ ∀ id, id ∈ aborted ↔ id ∉ pending ∧
        ∃ rs, p.requestStates.get? id = some rs ∧ rs.externalReqId ∈ externalIds := by
  induction externalIds generalizing p pending with
  | nil => exact ⟨p.externalReqIds, [], rfl, h, List.nodup_nil, fun id => by simp⟩
  | cons externalId externalIds ih =>
    -- one external id
    have hone : ∃ externalReqIds aborted, p.collectId false externalId =
        .ok ({ p with externalReqIds := externalReqIds }, aborted) ∧
        Consistent queue fanOuts { p with externalReqIds := externalReqIds } (aborted ++ pending) ∧
        aborted.Nodup ∧ ∀ id, id ∈ aborted ↔ id ∉ pending ∧
          ∃ rs, p.requestStates.get? id = some rs ∧ rs.externalReqId = externalId := by
      unfold collectId
      cases hids : p.externalReqIds.get? externalId with
      | none =>
        refine ⟨p.externalReqIds, [], rfl, h, List.nodup_nil, fun id => ?_⟩
        rw [← h.listed, hids]
        rfl
      | some internalIds =>
        have hlisted : ∀ id, id ∈ internalIds ↔ id ∉ pending ∧
            ∃ rs, p.requestStates.get? id = some rs ∧ rs.externalReqId = externalId := by
          intro id
          rw [← h.listed, hids]
          rfl
        refine ⟨p.externalReqIds.erase externalId, internalIds, rfl, ?_,
          (h.lists externalId internalIds hids).2, hlisted⟩
        refine h.unlisted rfl rfl ?_ ?_ (List.Sublist.refl _) (fun _ _ _ _ _ hq => hq)
        · intro ext id
          rw [List.mem_append, not_or, hlisted, Dict.get?_erase]
          by_cases hext : ext = externalId
          · subst hext
            rw [if_pos rfl]
            refine iff_of_false List.not_mem_nil ?_
            rintro ⟨⟨hnot, hpending⟩, hlive⟩
            exact hnot ⟨hpending, hlive⟩
          · rw [if_neg hext, h.listed]
            constructor
            · rintro ⟨hpending, rs, hrs, hrsExt⟩
              refine ⟨⟨?_, hpending⟩, rs, hrs, hrsExt⟩
              rintro ⟨-, rs', hrs', hrsExt'⟩
              cases hrs.symm.trans hrs'
              exact hext (hrsExt.symm.trans hrsExt')
            · rintro ⟨⟨-, hpending⟩, hlive⟩
              exact ⟨hpending, hlive⟩
        · intro ext ids hget
          rw [Dict.get?_erase] at hget
          split at hget
          · cases hget
          · exact h.lists ext ids hget
    obtain ⟨externalReqIds, aborted, hcollect, hconsistent, hnodup, haborted⟩ := hone
    obtain ⟨externalReqIds', aborted', hcollects, hconsistent', hnodup', haborted'⟩ := ih hconsistent
    refine ⟨externalReqIds', aborted ++ aborted', ?_, ?_, ?_, ?_⟩
    · unfold collectIds
      rw [hcollect, ok_bind]
      dsimp only
      rw [hcollects]
      rfl
    · apply hconsistent'.pendingSame
      intro id' _
      simp only [List.mem_append]
      tauto
    · rw [List.nodup_append]
      refine ⟨hnodup, hnodup', fun a ha b hb hab => ?_⟩
      exact ((haborted' b).mp hb).1 (List.mem_append_left _ (hab ▸ ha))
    · intro id
      rw [List.mem_append, haborted, haborted', List.mem_append, haborted]
      constructor
      · rintro (⟨hpending, rs, hrs, hext⟩ | ⟨hnot, rs, hrs, hext⟩)
        · exact ⟨hpending, rs, hrs, by rw [hext]; exact List.mem_cons_self⟩
        · exact ⟨fun hmem => hnot (Or.inr hmem), rs, hrs, List.mem_cons_of_mem _ hext⟩
      · rintro ⟨hpending, rs, hrs, hext⟩
        by_cases hfirst : rs.externalReqId = externalId
        · exact Or.inl ⟨hpending, rs, hrs, hfirst⟩
        · refine Or.inr ⟨?_, rs, hrs, (List.mem_cons.mp hext).resolve_left hfirst⟩
          rintro (⟨-, rs', hrs', hext'⟩ | hmem)
          · cases hrs.symm.trans hrs'
            exact hfirst hext'
          · exact hpending hmem

/-! ## The second loop -/

/-- The last output of a pooling request has an empty tensor. -/
theorem pooling_abort (rs : RequestState L) :
    (if rs.detokenizer.isNone then some emptyCpuTensor else none : Option Tensor).isSome ↔
      rs.detokenizer = none := by
  cases rs.detokenizer with
  | none => exact iff_of_true rfl rfl
  | some d => exact iff_of_false (by simp) (by simp)

/-- A live request is removed. -/
theorem abortOne_live (h : Consistent queue fanOuts p pending) (hrs : p.requestStates.get? id = some rs)
    (recurse : OutputProcessor L → List String → Except PyError (OutputProcessor L × List String)) :
    ∃ p', abortOne recurse p id = .ok (p', [id]) ∧ Ended queue p p' rs := by
  have hkey := h.key id rs hrs
  unfold abortOne
  rw [hrs]
  unfold putAbortOutput
  dsimp only
  rw [h.queued id rs hrs]
  cases queue with
  | false =>
    exact ⟨_, rfl, ⟨by rw [hkey], rfl, rfl, rfl, rfl, by simp⟩⟩
  | true =>
    obtain ⟨rs', parent', output, hmake, hsame, -, hreported⟩ :=
      RequestState.makeRequestOutput_ok (h.ready id rs hrs) (h.childOf hrs) []
        (pooling_abort rs) (some .abort) none
    let removed : OutputProcessor L := { p with requestStates := p.requestStates.erase id }
    have habort : rs.abortOutput (removed.parentOf rs) = .ok (rs', parent', output) := hmake
    have hmove : ParentsMove p (removed.setParent rs'.parentReq parent') rs (some .abort) :=
      parentsMove_setParent hreported (rfl : removed.parents = p.parents) hsame.parentReq
    rw [if_pos rfl, habort]
    refine ⟨_, rfl, ?_⟩
    constructor
    case requestStates => rw [put_requestStates, setParent_requestStates, hkey]
    case externalReqIds => rw [put_externalReqIds, setParent_externalReqIds]
    case parentRequests => rw [put_parentRequests, setParent_parentRequests]
    case streamInterval => exact removed.setParent_streamInterval _ _
    case tokenizer => exact removed.setParent_tokenizer _ _
    case parents => exact hmove

theorem consistent_of_ended (h : Consistent queue fanOuts p (id :: pending))
    (hrs : p.requestStates.get? id = some rs) (hended : Ended queue p p' rs) : Consistent queue fanOuts p' pending := by
  apply h.ended hrs List.mem_cons_self
  case hmove =>
    have hparents := hended.parents
    cases queue with
    | false => exact Or.inr hparents
    | true => exact Or.inl ⟨_, hparents⟩
  case hstates =>
    intro id'
    rw [hended.requestStates, h.key id rs hrs, Dict.get?_erase]
  case hexternal => exact hended.externalReqIds
  case hparentRequests => exact hended.parentRequests
  case hpending =>
    intro id' hne
    rw [List.mem_cons, or_iff_right hne]

/-- An id that is not live need not be pending. -/
theorem consistent_of_gone (h : Consistent queue fanOuts p (id :: pending))
    (hgone : p.requestStates.get? id = none) : Consistent queue fanOuts p pending := by
  apply h.pendingSame
  intro id' hlive
  rw [List.mem_cons, or_iff_right]
  rintro rfl
  rw [hgone] at hlive
  cases hlive

/-- What an abort leaves. -/
structure Leaves (p p' : OutputProcessor L) : Prop where
  requestStates : ∀ id rs, p'.requestStates.get? id = some rs → p.requestStates.get? id = some rs
  streamInterval : p'.streamInterval = p.streamInterval
  tokenizer : p'.tokenizer = p.tokenizer

theorem Leaves.trans {p'' : OutputProcessor L} (h : Leaves p p') (h' : Leaves p' p'') : Leaves p p'' :=
  ⟨fun id rs hrs => h.requestStates id rs (h'.requestStates id rs hrs),
    h'.streamInterval.trans h.streamInterval, h'.tokenizer.trans h.tokenizer⟩

theorem leaves_of_ended (hended : Ended queue p p' rs) : Leaves p p' ∧ p'.requestStates.get? rs.requestId = none := by
  refine ⟨⟨fun id' rs' hrs' => ?_, hended.streamInterval, hended.tokenizer⟩, ?_⟩
  · rw [hended.requestStates, Dict.get?_erase] at hrs'
    split at hrs'
    · cases hrs'
    · exact hrs'
  · rw [hended.requestStates, Dict.get?_erase_self]

variable {X : OutputProcessor L → List String → Prop}

section

variable (hX : AbortInvariant queue fanOuts X)
include hX

/-- Ids that are not those of parents are removed without a recursion. -/
theorem abortEach_children (h : Consistent queue fanOuts p (ids ++ pending)) (hx : X p (ids ++ pending))
    (hchildren : ∀ id ∈ ids, id ∉ p.parentRequests)
    (recurse : OutputProcessor L → List String → Except PyError (OutputProcessor L × List String)) :
    ∃ p' aborted, abortEach recurse p ids = .ok (p', aborted) ∧ Consistent queue fanOuts p' pending ∧
      X p' pending ∧ Leaves p p' ∧ p'.parentRequests = p.parentRequests ∧
      ∀ id ∈ ids, p'.requestStates.get? id = none := by
  induction ids generalizing p with
  | nil => exact ⟨p, [], rfl, h, hx, ⟨fun _ _ hrs => hrs, rfl, rfl⟩, rfl, nofun⟩
  | cons id ids ih =>
    -- one id
    have hone : ∃ p₁ aborted, abortOne recurse p id = .ok (p₁, aborted) ∧
        Consistent queue fanOuts p₁ (ids ++ pending) ∧ X p₁ (ids ++ pending) ∧ Leaves p p₁ ∧
        p₁.parentRequests = p.parentRequests ∧ p₁.requestStates.get? id = none := by
      cases hlive : p.requestStates.get? id with
      | none =>
        have hnot := hchildren id List.mem_cons_self
        refine ⟨p, [], ?_, consistent_of_gone h hlive, hX.gone hlive hnot hx,
          ⟨fun _ _ hrs => hrs, rfl, rfl⟩, rfl, hlive⟩
        unfold abortOne
        rw [hlive]
        exact if_neg hnot
      | some rs =>
        obtain ⟨p₁, habort, hended⟩ := abortOne_live h hlive recurse
        obtain ⟨hleaves, hgone⟩ := leaves_of_ended hended
        exact ⟨p₁, [id], habort, consistent_of_ended h hlive hended, hX.ends h hlive hended hx,
          hleaves, hended.parentRequests, h.key id rs hlive ▸ hgone⟩
    obtain ⟨p₁, aborted, habort, h₁, hx₁, hleaves₁, hparentRequests₁, hgone₁⟩ := hone
    obtain ⟨p₂, more, habortEach, h₂, hx₂, hleaves₂, hparentRequests₂, hgone₂⟩ := ih h₁ hx₁
      (fun c hc => hparentRequests₁ ▸ hchildren c (List.mem_cons_of_mem _ hc))
    refine ⟨p₂, aborted ++ more, ?_, h₂, hx₂, hleaves₁.trans hleaves₂,
      hparentRequests₂.trans hparentRequests₁, ?_⟩
    · unfold abortEach
      rw [habort, ok_bind]
      dsimp only
      rw [habortEach]
      rfl
    · intro c hc
      rcases List.mem_cons.mp hc with rfl | hc
      · cases hlive : p₂.requestStates.get? c with
        | none => rfl
        | some rs => cases hgone₁.symm.trans (hleaves₂.requestStates c rs hlive)
      · exact hgone₂ c hc

/-- The children that are left of a parent. -/
theorem abortChildren_ok (h : Consistent queue fanOuts p (id :: pending)) (hx : X p (id :: pending))
    (hgone : p.requestStates.get? id = none) {parent : ParentRequest L} (hparent : p.parents id = some parent)
    (hlast : ∀ c rs, p.requestStates.get? c = some rs → rs.parentReq = some id → c ∉ pending) (depth : Nat) :
    ∃ p' aborted, abortChildren (fun p children => abortRequestsTo (depth + 1) p true children) p
        parent.childRequests = .ok (p', aborted) ∧
      Consistent queue fanOuts p' (id :: pending) ∧ X p' (id :: pending) ∧ Leaves p p' ∧
      p'.parentRequests = p.parentRequests ∧ ∀ c rs, p'.requestStates.get? c = some rs → rs.parentReq ≠ some id := by
  obtain ⟨fanOut, -, hfans⟩ := h.fansOut id parent hparent
  have hlive : ∀ c rs, p.requestStates.get? c = some rs → rs.parentReq = some id →
      c ∈ parent.childRequests := by
    intro c rs hrs hid
    obtain ⟨parent', -, hparent', -, hmem, -⟩ := (h.child c rs id hrs hid).parent
    cases hparent.symm.trans hparent'
    exact h.key c rs hrs ▸ hmem
  unfold abortChildren
  by_cases hnil : parent.childRequests = []
  · rw [if_pos hnil]
    refine ⟨p, [], rfl, h, hx, ⟨fun _ _ hrs => hrs, rfl, rfl⟩, rfl, fun c rs hrs hid => ?_⟩
    have hmem := hlive c rs hrs hid
    rw [hnil] at hmem
    cases hmem
  · rw [if_neg hnil]
    obtain ⟨externalReqIds, hcollect, hcollected⟩ := collectIds_internal h
      (liveOnce_of_nodup hfans.nodup) (fun c hc hsome hmem => by
        obtain ⟨rs, hrs⟩ := Option.isSome_iff_exists.mp hsome
        rcases List.mem_cons.mp hmem with rfl | hmem
        · cases hgone.symm.trans hrs
        · exact hlast c rs hrs (h.parentReq_of_child hparent hc hrs) hmem)
    have hx' := hX.relist externalReqIds (hX.children h hparent hx)
    have hnoParent : ∀ c ∈ parent.childRequests, c ∉ p.parentRequests := by
      intro c hc hmem
      obtain ⟨i, -, rfl⟩ := hfans.children c hc
      exact (h.distinct _ (h.parentRequests _ hmem)).2 id i (by rw [hparent]; rfl) rfl
    obtain ⟨p', aborted, habort, h', hx'', hleaves, hparentRequests, hgone'⟩ :=
      abortEach_children hX hcollected hx' hnoParent
        (fun p children => abortRequestsTo depth p true children)
    refine ⟨p', aborted, ?_, h', hx'', ⟨hleaves.requestStates, hleaves.streamInterval,
      hleaves.tokenizer⟩, hparentRequests, fun c rs hrs hid => ?_⟩
    · unfold abortRequestsTo
      dsimp only
      rw [hcollect]
      exact habort
    · have hmem := hlive c rs (hleaves.requestStates c rs hrs) hid
      cases (hgone' c hmem).symm.trans hrs

/-- The second loop. -/
theorem abortEach_ok (h : Consistent queue fanOuts p ids) (hx : X p ids) (hlast : ParentsLast p ids) (depth : Nat) :
    ∃ p' aborted, abortEach (fun p children => abortRequestsTo (depth + 1) p true children) p ids = .ok (p', aborted) ∧
      Consistent queue fanOuts p' [] ∧ X p' [] ∧ Leaves p p' := by
  induction ids generalizing p with
  | nil => exact ⟨p, [], rfl, h, hx, fun _ _ hrs => hrs, rfl, rfl⟩
  | cons id ids ih =>
    obtain ⟨hfirst, hrest⟩ := hlast
    -- one id
    have hone : ∃ p₁ aborted,
        abortOne (fun p children => abortRequestsTo (depth + 1) p true children) p id =
          .ok (p₁, aborted) ∧
        Consistent queue fanOuts p₁ ids ∧ X p₁ ids ∧ Leaves p p₁ ∧
        ∀ q ∈ p₁.parentRequests, q ∈ p.parentRequests := by
      cases hlive : p.requestStates.get? id with
      | some rs =>
        obtain ⟨p₁, habort, hended⟩ := abortOne_live h hlive
          (fun p children => abortRequestsTo (depth + 1) p true children)
        exact ⟨p₁, [id], habort, consistent_of_ended h hlive hended, hX.ends h hlive hended hx,
          (leaves_of_ended hended).1, fun q hq => hended.parentRequests ▸ hq⟩
      | none =>
        unfold abortOne
        rw [hlive]
        by_cases hmem : id ∈ p.parentRequests
        · obtain ⟨parent, hparent⟩ := Option.isSome_iff_exists.mp (h.parentRequests id hmem)
          obtain ⟨p₁, aborted, habort, h₁, hx₁, hleaves, hparentRequests, hnone⟩ :=
            abortChildren_ok hX h hx hlive hparent (hfirst hmem) depth
          have hgone₁ : p₁.requestStates.get? id = none := by
            cases hlive₁ : p₁.requestStates.get? id with
            | none => rfl
            | some rs => cases hlive.symm.trans (hleaves.requestStates id rs hlive₁)
          rw [if_pos hmem, hparent, Option.map_some, Option.getD_some, habort]
          refine ⟨_, aborted, rfl, consistent_of_gone (h₁.parentDropped rfl rfl rfl rfl hnone) hgone₁,
            hX.drops hnone rfl rfl rfl h₁.parentsNodup hx₁,
            ⟨hleaves.requestStates, hleaves.streamInterval, hleaves.tokenizer⟩, fun q hq => ?_⟩
          exact hparentRequests ▸ List.mem_of_mem_erase hq
        · rw [if_neg hmem]
          exact ⟨p, [], rfl, consistent_of_gone h hlive, hX.gone hlive hmem hx,
            ⟨fun _ _ hrs => hrs, rfl, rfl⟩, fun _ hq => hq⟩
    obtain ⟨p₁, aborted, habort, h₁, hx₁, hleaves₁, hparentRequests₁⟩ := hone
    obtain ⟨p₂, more, habortEach, h₂, hx₂, hleaves₂⟩ :=
      ih h₁ hx₁ (hrest.mono hleaves₁.requestStates hparentRequests₁)
    refine ⟨p₂, aborted ++ more, ?_, h₂, hx₂, hleaves₁.trans hleaves₂⟩
    unfold abortEach
    rw [habort, ok_bind]
    dsimp only
    rw [habortEach]
    rfl

/-- An abort with internal ids. -/
theorem abortRequests_internal (h : Consistent queue fanOuts p []) (honce : LiveOnce p ids) (hlast : ParentsLast p ids)
    (hx : X p ids) :
    ∃ p' aborted, p.abortRequests ids true = .ok (p', aborted) ∧
      Consistent queue fanOuts p' [] ∧ X p' [] ∧ Leaves p p' := by
  obtain ⟨externalReqIds, hcollect, hcollected⟩ :=
    collectIds_internal h honce (fun _ _ _ => List.not_mem_nil)
  rw [List.append_nil] at hcollected
  have hx' := hX.relist externalReqIds hx
  have hlast' : ParentsLast { p with externalReqIds := externalReqIds } ids :=
    hlast.mono (fun _ _ hrs => hrs) (fun _ hq => hq)
  obtain ⟨p', aborted, habort, h', hx'', hleaves⟩ :=
    abortEach_ok hX hcollected hx' hlast' p.parentRequests.length
  refine ⟨p', aborted, ?_, h', hx'', hleaves.requestStates, hleaves.streamInterval, hleaves.tokenizer⟩
  unfold abortRequests abortRequestsTo
  rw [hcollect]
  exact habort

/-- An abort with external ids. -/
theorem abortRequests_external (h : Consistent queue fanOuts p []) (externalIds : List String)
    (hx : ∀ aborted, (∀ id, id ∈ aborted ↔
      ∃ rs, p.requestStates.get? id = some rs ∧ rs.externalReqId ∈ externalIds) → X p aborted) :
    ∃ p' aborted, p.abortRequests externalIds false = .ok (p', aborted) ∧
      Consistent queue fanOuts p' [] ∧ X p' [] ∧ Leaves p p' := by
  obtain ⟨externalReqIds, ids, hcollect, hcollected, -, hids⟩ := collectIds_external h externalIds
  rw [List.append_nil] at hcollected
  have hlive : ∀ id, id ∈ ids ↔
      ∃ rs, p.requestStates.get? id = some rs ∧ rs.externalReqId ∈ externalIds := by
    intro id
    rw [hids, and_iff_right List.not_mem_nil]
  have hx' := hX.relist externalReqIds (hx ids hlive)
  -- the ids are those of live requests, none is that of a parent
  have hlast : ∀ l, (∀ id ∈ l, id ∈ ids) → ParentsLast { p with externalReqIds := externalReqIds } l := by
    intro l hl
    induction l with
    | nil => trivial
    | cons id l ih =>
      refine ⟨fun hmem => ?_, ih fun c hc => hl c (List.mem_cons_of_mem _ hc)⟩
      obtain ⟨rs, hrs, -⟩ := (hlive id).mp (hl id List.mem_cons_self)
      cases (h.distinct id (h.parentRequests id hmem)).1.symm.trans hrs
  obtain ⟨p', aborted, habort, h', hx'', hleaves⟩ :=
    abortEach_ok hX hcollected hx' (hlast ids fun _ hid => hid) p.parentRequests.length
  refine ⟨p', aborted, ?_, h', hx'', hleaves.requestStates, hleaves.streamInterval, hleaves.tokenizer⟩
  unfold abortRequests abortRequestsTo
  rw [hcollect]
  exact habort

end

end OutputProcessor

end Yuan.Frontend
