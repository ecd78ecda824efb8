import Yuan.Lib.Runs
import Yuan.Frontend.Aborts
import Yuan.Frontend.AddedRequests

/-!
# Steps of the front end

A property of the maps and of the parents that is kept by each thing that can happen to a request is kept by
every operation, and the operation succeeds. What an operation has to spare for that is a parameter.
-/

namespace Yuan.Frontend

variable {L : Type}

/-- A condition on the outputs of the engine, each in the state that those before it lead to. -/
def EachOutput (C : OutputProcessor L → EngineCoreOutput L → Prop) (p : OutputProcessor L) :
    List (EngineCoreOutput L) → Prop
  | [] => True
  | o :: outputs => C p o ∧ ∀ p' requestOutputs aborts,
      p.processOutput o = .ok (p', requestOutputs, aborts) → EachOutput C p' outputs

/-- The output ends the request. -/
def RequestState.EndsWith (rs : RequestState L) (o : EngineCoreOutput L) : Prop :=
  ∃ rs' finishReason stopReason, rs.decodeOutput o = .ok (rs', some finishReason, stopReason)

section Steps

variable {queue : Bool} {fanOuts : String → Option FanOut} {p p' : OutputProcessor L}
  {rs : RequestState L} {finishReason : Option FinishReason}

/-- `process_outputs` keeps what each output keeps. -/
theorem processOutputs_ok {J : OutputProcessor L → Prop} {C : OutputProcessor L → EngineCoreOutput L → Prop}
    (hkeep : ∀ {p p' : OutputProcessor L} {o rs finishReason}, Consistent queue fanOuts p [] → J p →
      C p o → p.requestStates.get? o.requestId = some rs → Processed p p' rs finishReason →
      (∃ rs₁ stopReason, rs.decodeOutput o = .ok (rs₁, finishReason, stopReason)) → J p')
    (h : Consistent queue fanOuts p []) (hj : J p) {outputs : List (EngineCoreOutput L)}
    (hanswers : ∀ o ∈ outputs, ∀ rs, p.requestStates.get? o.requestId = some rs → rs.Answers o)
    (hcond : EachOutput C p outputs) :
    ∃ p' requestOutputs aborts, p.processOutputs outputs = .ok (p', requestOutputs, aborts) ∧
      Consistent queue fanOuts p' [] ∧ J p' ∧ p'.streamInterval = p.streamInterval := by
  induction outputs generalizing p with
  | nil => exact ⟨p, [], [], rfl, h, hj, rfl⟩
  | cons o outputs ih =>
    obtain ⟨hfirst, hrest⟩ := hcond
    -- one output
    have hone : ∃ p₁ requestOutputs aborts, p.processOutput o = .ok (p₁, requestOutputs, aborts) ∧
        Consistent queue fanOuts p₁ [] ∧ J p₁ ∧ p₁.streamInterval = p.streamInterval ∧
        ∀ o rs, p₁.requestStates.get? o.requestId = some rs →
          (∀ rs, p.requestStates.get? o.requestId = some rs → rs.Answers o) → rs.Answers o := by
      unfold OutputProcessor.processOutput
      cases hlive : p.requestStates.get? o.requestId with
      | none => exact ⟨p, [], [], rfl, h, hj, rfl, fun o rs hrs hanswer => hanswer rs hrs⟩
      | some rs =>
        obtain ⟨p₁, requestOutputs, aborts, finishReason, hprocess, h₁, hprocessed, hdecode⟩ :=
          OutputProcessor.processLive_ok h hlive (hanswers o List.mem_cons_self rs hlive)
        refine ⟨p₁, requestOutputs, aborts, hprocess, h₁,
          hkeep h hj hfirst hlive hprocessed hdecode, hprocessed.streamInterval,
          fun o' rs' hrs' hanswer => ?_⟩
        have hkey := h.key _ rs hlive
        by_cases hsame : o'.requestId = rs.requestId
        · by_cases hstays : finishReason = none ∨ rs.streamingInput = true
          · obtain ⟨rs'', hrs'', -, hanswers'⟩ := hprocessed.stays hstays
            rw [hsame] at hrs' hanswer
            cases hrs'.symm.trans hrs''
            exact hanswers' o' (hanswer rs (by rw [hkey]; exact hlive))
          · obtain ⟨hended, hclosed⟩ := not_or.mp hstays
            rw [hsame, hprocessed.ends (Option.isSome_iff_ne_none.mpr hended)
              (Bool.not_eq_true _ ▸ hclosed)] at hrs'
            cases hrs'
        · rw [hprocessed.others _ hsame] at hrs'
          exact hanswer rs' hrs'
    obtain ⟨p₁, requestOutputs, aborts, hprocess, h₁, hj₁, hinterval, hanswers₁⟩ := hone
    obtain ⟨p₂, moreOutputs, moreAborts, hprocesses, h₂, hj₂, hinterval₂⟩ := ih h₁ hj₁
      (fun o' ho' rs hrs => hanswers₁ o' rs hrs (hanswers o' (List.mem_cons_of_mem _ ho')))
      (hrest p₁ requestOutputs aborts hprocess)
    refine ⟨p₂, requestOutputs ++ moreOutputs, aborts ++ moreAborts, ?_, h₂, hj₂,
      hinterval₂.trans hinterval⟩
    unfold OutputProcessor.processOutputs
    rw [hprocess, ok_bind]
    dsimp only
    rw [hprocesses]
    rfl

/-- A property that everything that can happen to a request keeps: `C` is what an output has to spare, `X` what
an abort has to spare of the ids that are left. -/
structure KeptBySteps (queue : Bool) (J : (String → Option FanOut) → OutputProcessor L → Prop)
    (C : (String → Option FanOut) → OutputProcessor L → EngineCoreOutput L → Prop)
    (X : (String → Option FanOut) → OutputProcessor L → List String → Prop) : Prop where
  session : ∀ {fanOuts p p' id rs}, p.requestStates.get? id = some rs → rs.parentReq = none →
    OutputProcessor.SessionUpdated p p' id → J fanOuts p → J fanOuts p'
  added : ∀ {fanOuts p p' rs}, p.requestStates.get? rs.requestId = none → rs.parentReq = none →
    OutputProcessor.Added p p' rs → J fanOuts p → J fanOuts p'
  started : ∀ {fanOuts p q externalReqId fanOut}, p.parents q = none → fanOut.next = 0 →
    1 < fanOut.params.n → J fanOuts p →
    J (Function.update fanOuts q (some fanOut))
      { p with parents := Function.update p.parents q (some (.new q externalReqId fanOut.params)) }
  child : ∀ {llm llm' : AsyncLLM L} {q fanOut parent rs}, llm.Agrees → llm.fanOuts q = some fanOut →
    llm.processor.parents q = some parent → fanOut.next < fanOut.params.n →
    AsyncLLM.ChildAdded llm llm' q fanOut parent rs → J llm.fanOuts llm.processor →
    J llm'.fanOuts llm'.processor
  output : ∀ {fanOuts p p' o rs finishReason}, Consistent queue fanOuts p [] → J fanOuts p →
    C fanOuts p o → p.requestStates.get? o.requestId = some rs → Processed p p' rs finishReason →
    (∃ rs₁ stopReason, rs.decodeOutput o = .ok (rs₁, finishReason, stopReason)) → J fanOuts p'
  abort : ∀ fanOuts, AbortInvariant queue fanOuts (X fanOuts)
  aborted : ∀ {fanOuts p}, X fanOuts p [] → J fanOuts p

end Steps

namespace AsyncLLM

variable {llm : AsyncLLM L}

/-- The front end at its start. -/
def new (tokenizer : Option Tokenizer) (streamInterval : Nat) (queue : Bool) : AsyncLLM L where
  processor := { tokenizer := tokenizer, streamInterval := streamInterval }
  queue := queue

theorem agrees_new (tokenizer : Option Tokenizer) (streamInterval : Nat) (queue : Bool) :
    (new tokenizer streamInterval queue : AsyncLLM L).Agrees where
  key := fun _ _ hrs => by cases hrs
  ready := fun _ _ hrs => by cases hrs
  queued := fun _ _ hrs => by cases hrs
  listed := by
    intro ext id
    refine iff_of_false List.not_mem_nil ?_
    rintro ⟨-, rs, hrs, -⟩
    cases hrs
  lists := fun _ _ hids => by cases hids
  fansOut := fun _ _ hparent => by cases hparent
  child := fun _ _ _ hrs => by cases hrs
  alone := fun _ _ hrs => by cases hrs
  distinct := fun _ hparent => by cases hparent
  parentRequests := fun _ hq => by cases hq
  parentsNodup := List.nodup_nil

/-- What an operation has to spare. -/
def Spares (C : (String → Option FanOut) → OutputProcessor L → EngineCoreOutput L → Prop)
    (X : (String → Option FanOut) → OutputProcessor L → List String → Prop) (llm : AsyncLLM L) :
    FrontendOp L → Prop
  | .addRequest request _ => request.samplingParams = none → llm.processor.streamInterval ≤ 1
  | .parentRequest _ _ => True
  | .addChild _ => True
  | .processOutputs outputs => EachOutput (C llm.fanOuts) llm.processor outputs
  | .abort ids true => LiveOnce llm.processor ids ∧ ParentsLast llm.processor ids ∧
      X llm.fanOuts llm.processor ids
  | .abort externalIds false => ∀ aborted, (∀ id, id ∈ aborted ↔ ∃ rs,
      llm.processor.requestStates.get? id = some rs ∧ rs.externalReqId ∈ externalIds) →
      X llm.fanOuts llm.processor aborted

/-- Every such operation succeeds, and keeps the property. -/
theorem step_ok {J : (String → Option FanOut) → OutputProcessor L → Prop}
    {C : (String → Option FanOut) → OutputProcessor L → EngineCoreOutput L → Prop}
    {X : (String → Option FanOut) → OutputProcessor L → List String → Prop}
    (hkept : KeptBySteps llm.queue J C X) (h : llm.Agrees) (hj : J llm.fanOuts llm.processor)
    {op : FrontendOp L} (hadmits : llm.Admits op) (hspares : llm.Spares C X op) :
    ∃ llm', llm.step op = .ok llm' ∧ llm'.Agrees ∧ J llm'.fanOuts llm'.processor ∧ llm'.queue = llm.queue := by
  cases op with
  | addRequest request prompt =>
    obtain ⟨hvalid, ⟨rs, hrs, halone⟩ | hnew⟩ := hadmits
    · obtain ⟨p', hupdate, h', hupdated⟩ :=
        OutputProcessor.updateStreamingRequestState_ok h hrs halone request prompt
      have hadd : llm.processor.addRequest request prompt none 0 llm.queue = .ok p' := by
        unfold OutputProcessor.addRequest
        rw [hrs]
        exact hupdate
      refine ⟨{ llm with processor := p' }, ?_, h', hkept.session hrs halone hupdated hj, rfl⟩
      unfold step
      dsimp only
      rw [hadd]
      rfl
    · obtain ⟨hnotLive, hnotParent, hnotChild⟩ := hnew
      obtain ⟨p', rs, hadd, hadded, hid, hparent, -, hqueue, -, hready, -⟩ :=
        OutputProcessor.addRequest_new hvalid hnotLive prompt none 0 llm.queue
          (fun hpooling => ⟨hspares hpooling, rfl⟩)
      refine ⟨{ llm with processor := p' }, ?_, ?_,
        hkept.added (hid ▸ hnotLive) hparent hadded hj, rfl⟩
      · unfold step
        dsimp only
        rw [hadd]
        rfl
      · apply Consistent.added h hnotLive hnotParent hid hready hqueue
        case hstates => exact hid ▸ hadded.requestStates
        case hparents => exact hadded.parents
        case hexternal => exact hid ▸ hadded.externalReqIds
        case hparentRequests => exact fun q hq => (hadded.parentRequests q).mpr (Or.inl hq)
        case hnewParent => exact fun q hq => (hadded.parentRequests q).mp hq
        case hnodup => exact hadded.nodup h.parentsNodup
        case hchild =>
          intro q hq
          rw [hparent] at hq
          cases hq
        case halone => exact fun _ q i hq => hnotChild q i hq
  | parentRequest request prompt =>
    obtain ⟨hvalid, hresumable, ⟨params, hparams, hmany⟩, hnew, hchildren⟩ := hadmits
    obtain ⟨externalReqId, -, hstep, h'⟩ :=
      parentRequest_ok h hvalid hresumable hparams hnew hchildren prompt
    exact ⟨_, hstep, h', hkept.started hnew.2.1 rfl hmany hj, rfl⟩
  | addChild q =>
    have hskip : llm.addChild q = .ok llm → ∃ llm', llm.step (.addChild q) = .ok llm' ∧
        llm'.Agrees ∧ J llm'.fanOuts llm'.processor ∧ llm'.queue = llm.queue :=
      fun hstep => ⟨llm, hstep, h, hj, rfl⟩
    cases hfanOut : llm.fanOuts q with
    | none =>
      apply hskip
      unfold addChild
      rw [hfanOut]
    | some fanOut =>
      cases hparent : llm.processor.parents q with
      | none =>
        apply hskip
        unfold addChild
        rw [hfanOut, hparent]
      | some parent =>
        by_cases hnext : fanOut.next < fanOut.params.n
        · obtain ⟨llm', rs, hstep, h', hadded⟩ := addChild_ok h hfanOut hparent hnext
          exact ⟨llm', hstep, h', hkept.child h hfanOut hparent hnext hadded hj, hadded.queue⟩
        · apply hskip
          unfold addChild
          rw [hfanOut, hparent]
          exact if_neg hnext
  | processOutputs outputs =>
    obtain ⟨p', requestOutputs, aborts, hprocess, h', hj', -⟩ := processOutputs_ok
      (fun h hj hcond hrs hprocessed hdecode => hkept.output h hj hcond hrs hprocessed hdecode)
      h hj hadmits hspares
    refine ⟨{ llm with processor := p' }, ?_, h', hj', rfl⟩
    unfold step
    dsimp only
    rw [hprocess]
    rfl
  | abort ids internal =>
    have habort : ∃ p' aborted, llm.processor.abortRequests ids internal = .ok (p', aborted) ∧
        Consistent llm.queue llm.fanOuts p' [] ∧ X llm.fanOuts p' [] := by
      cases internal with
      | true =>
        obtain ⟨honce, hlast, hx⟩ := hspares
        obtain ⟨p', aborted, habort, h', hx', -⟩ :=
          OutputProcessor.abortRequests_internal (hkept.abort llm.fanOuts) h honce hlast hx
        exact ⟨p', aborted, habort, h', hx'⟩
      | false =>
        obtain ⟨p', aborted, habort, h', hx', -⟩ :=
          OutputProcessor.abortRequests_external (hkept.abort llm.fanOuts) h ids hspares
        exact ⟨p', aborted, habort, h', hx'⟩
    obtain ⟨p', aborted, habort, h', hx⟩ := habort
    refine ⟨{ llm with processor := p' }, ?_, h', hkept.aborted hx, rfl⟩
    unfold step
    dsimp only
    rw [habort]
    rfl

/-- The property holds in every run that starts with it. -/
theorem kept_of_run {J : (String → Option FanOut) → OutputProcessor L → Prop}
    {C : (String → Option FanOut) → OutputProcessor L → EngineCoreOutput L → Prop}
    {X : (String → Option FanOut) → OutputProcessor L → List String → Prop}
    {allowed : AsyncLLM L → FrontendOp L → Prop} {start : AsyncLLM L}
    (hkept : KeptBySteps start.queue J C X) (hagrees : start.Agrees) (hstart : J start.fanOuts start.processor)
    (hallowed : ∀ llm op, llm.Agrees → J llm.fanOuts llm.processor → allowed llm op → llm.Admits op ∧ llm.Spares C X op)
    (h : ReachedBy (fun llm op => (step llm op).toOption) allowed start llm) :
    llm.Agrees ∧ J llm.fanOuts llm.processor ∧ ∀ op, allowed llm op → ∃ llm', llm.step op = .ok llm' := by
  have hinvariant : llm.Agrees ∧ J llm.fanOuts llm.processor ∧ llm.queue = start.queue := by
    apply h.invariant (P := fun llm => llm.Agrees ∧ J llm.fanOuts llm.processor ∧
      llm.queue = start.queue)
    case hstart => exact ⟨hagrees, hstart, rfl⟩
    case hstep =>
      rintro llm op llm' ⟨h, hj, hqueue⟩ hop hstep
      obtain ⟨hadmits, hspares⟩ := hallowed llm op h hj hop
      obtain ⟨llm₁, hok, h₁, hj₁, hqueue₁⟩ := step_ok (hqueue ▸ hkept) h hj hadmits hspares
      rw [hok] at hstep
      cases hstep
      exact ⟨h₁, hj₁, hqueue₁.trans hqueue⟩
  obtain ⟨hagrees, hj, hqueue⟩ := hinvariant
  refine ⟨hagrees, hj, fun op hop => ?_⟩
  obtain ⟨hadmits, hspares⟩ := hallowed llm op hagrees hj hop
  obtain ⟨llm', hok, -⟩ := step_ok (hqueue ▸ hkept) hagrees hj hadmits hspares
  exact ⟨llm', hok⟩

end AsyncLLM

end Yuan.Frontend
