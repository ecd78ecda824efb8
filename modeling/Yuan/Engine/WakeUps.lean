import Yuan.Engine.DataParallel

/-! # Lost wake-ups between data-parallel engines

An engine that runs goes on until all engines meet in the all-reduce, so it must never run while
another one is paused and nothing is on its way to wake that one. -/

namespace Yuan.Engine

namespace DPEngineCoreProc

variable {e : DPEngineCoreProc}

/-- The engine is heading for the joint all-reduce. -/
def IsRunning (e : DPEngineCoreProc) : Prop :=
  e.enginesRunning = true ∨ e.hasUnfinishedRequests = true

/-- The engine waits for a message. -/
def IsPaused (e : DPEngineCoreProc) : Prop :=
  e.enginesRunning = false ∧ e.hasUnfinishedRequests = false

instance (e : DPEngineCoreProc) : Decidable e.IsRunning := inferInstanceAs (Decidable (_ ∨ _))

instance (e : DPEngineCoreProc) : Decidable e.IsPaused := inferInstanceAs (Decidable (_ ∧ _))

theorem IsPaused.not_isRunning (h : e.IsPaused) : ¬ e.IsRunning := by
  rintro (hr | hr)
  · rw [h.1] at hr
    cases hr
  · rw [h.2] at hr
    cases hr

/-- A request of the engine's wave or an earlier one leaves the wave as it is. -/
theorem addRequest_eq {id : String} {v : Nat} (h : v ≤ e.currentWave) :
    e.addRequest id v = ({ e with unfinished := e.unfinished.insert id },
      if v < e.currentWave ∧ e.enginesRunning = false then [.startWave e.currentWave] else []) := by
  unfold addRequest
  rcases h.lt_or_eq with hlt | heq
  · cases hr : e.enginesRunning
    case false => simp [hlt, hlt.ne, hlt.not_gt]
    case true => simp [hlt.not_gt]
  · simp [heq]

theorem hasUnfinishedRequests_iff : e.hasUnfinishedRequests = true ↔ ∃ id, id ∈ e.unfinished := by
  simp [hasUnfinishedRequests, List.eq_nil_iff_forall_not_mem]

/-- A step of the engine core changes only requests and the queue of aborts. -/
theorem processEngineStep_fields (e : DPEngineCoreProc) (finished : List String) :
    (e.processEngineStep finished).currentWave = e.currentWave ∧
      (e.processEngineStep finished).enginesRunning = e.enginesRunning ∧
      (e.processEngineStep finished).stepCounter = e.stepCounter ∧
      (e.processEngineStep finished).inputQueue = e.inputQueue ∧
      (e.processEngineStep finished).allReduce = e.allReduce := by
  unfold processEngineStep
  split
  · exact ⟨rfl, rfl, rfl, rfl, rfl⟩
  · exact ⟨rfl, rfl, rfl, rfl, rfl⟩

/-- The requests that are neither aborted nor finished stay. -/
theorem mem_unfinished_processEngineStep {finished : List String} {id : String} :
    id ∈ (e.processEngineStep finished).unfinished ↔
      id ∈ e.unfinished ∧ id ∉ e.abortsQueue.flatten ∧ id ∉ finished := by
  unfold processEngineStep
  split
  · simp only [abortRequests, List.mem_filter, decide_eq_true_eq, and_assoc]
  · next hnone =>
    have hempty : id ∉ e.unfinished := fun hid => hnone (hasUnfinishedRequests_iff.mpr ⟨id, hid⟩)
    simp [hempty]

/-- After its step the loop of an engine goes on without running, runs, or waits for the others. -/
theorem busyLoopStep_cases (e : DPEngineCoreProc) (executed : Bool) (finished : List String) :
    (executed = false ∧ e.enginesRunning = false ∧
      e.busyLoopStep executed finished = e.processEngineStep finished) ∨
    ((executed = true ∨ (e.processEngineStep finished).IsRunning) ∧
      e.busyLoopStep executed finished = { e.processEngineStep finished with
        stepCounter := e.stepCounter + 1, enginesRunning := true }) ∨
    ((e.stepCounter + 1) % 32 = 0 ∧
      e.busyLoopStep executed finished = { e.processEngineStep finished with
        stepCounter := e.stepCounter + 1
        allReduce := some (e.processEngineStep finished).hasUnfinishedRequests }) := by
  obtain ⟨-, hr, hc, -, -⟩ := processEngineStep_fields e finished
  unfold busyLoopStep
  dsimp only
  rw [hr, hc]
  split
  · next hpaused => exact .inl ⟨hpaused.1, hpaused.2.2, rfl⟩
  · next hgoes =>
    right
    split
    · left
      refine ⟨?_, rfl⟩
      by_contra hnot
      rw [not_or, IsRunning, not_or, Bool.not_eq_true, Bool.not_eq_true, Bool.not_eq_true, hr]
        at hnot
      exact hgoes ⟨hnot.1, hnot.2.2, hnot.2.1⟩
    · next hcounter => exact .inr ⟨not_ne_iff.mp hcounter, rfl⟩

end DPEngineCoreProc

namespace Deployment

variable {numClients numEngines : Nat} {s s' : Deployment numClients numEngines}
  {w : Nat} {k : Fin numEngines} {c : Fin numClients}

/-- A message is on its way to an engine or in its input queue. -/
def OnTheWay (s : Deployment numClients numEngines) (k : Fin numEngines)
    (r : EngineCoreRequest) : Prop :=
  r ∈ (s.engines k).inputQueue ∨ ∃ source, r ∈ s.inputs (source, k)

/-- No party has a message still to receive. -/
structure NoMessageInFlight (s : Deployment numClients numEngines) : Prop where
  inputs : ∀ i, s.inputs i = []
  firstReqs : ∀ c, s.firstReqs c = []
  outputs : ∀ k, s.outputs k = []
  published : ∀ c, s.published c = []
  firstReqSocket : ∀ c, (s.clients c).firstReqSocket = []
  inputQueue : ∀ k, (s.engines k).inputQueue = []

theorem noMessageInFlight_iff : s.NoMessageInFlight ↔ (∀ k, s.inputs (none, k) = [] ∧ ∀ c, s.inputs (some c, k) = []) ∧
      (∀ c, s.firstReqs c = [] ∧ s.published c = [] ∧ (s.clients c).firstReqSocket = []) ∧
      ∀ k, s.outputs k = [] ∧ (s.engines k).inputQueue = [] := by
  constructor
  · intro h
    exact ⟨fun k => ⟨h.inputs _, fun c => h.inputs _⟩,
      fun c => ⟨h.firstReqs c, h.published c, h.firstReqSocket c⟩,
      fun k => ⟨h.outputs k, h.inputQueue k⟩⟩
  · rintro ⟨hinputs, hclients, hengines⟩
    refine ⟨?_, fun c => (hclients c).1, fun k => (hengines k).1, fun c => (hclients c).2.1,
      fun c => (hclients c).2.2, fun k => (hengines k).2⟩
    rintro ⟨source, k⟩
    cases source
    case none => exact (hinputs k).1
    case some c => exact (hinputs k).2 c

instance (s : Deployment numClients numEngines) : Decidable s.NoMessageInFlight :=
  decidable_of_iff' _ noMessageInFlight_iff

/-- With no message in flight, no engine runs while another one is paused. -/
def NoLostWakeUp (s : Deployment numClients numEngines) : Prop :=
  s.NoMessageInFlight → ¬ ∃ i j, (s.engines i).IsRunning ∧ (s.engines j).IsPaused

instance (s : Deployment numClients numEngines) : Decidable s.NoLostWakeUp :=
  inferInstanceAs (Decidable (_ → _))

/-! ## Steps that keep a notified engine running -/

/-- The wave of an engine was started with a START_DP_WAVE message that is not on its way to the
engine any more. -/
def StartPassed (s : Deployment numClients numEngines) (k : Fin numEngines) : Prop :=
  s.coordinator.currentWave = (s.engines k).currentWave ∧ s.coordinator.enginesRunning = true ∧
    ∀ m, s.OnTheWay k (.startDPWave m) → m.wave ≠ (s.engines k).currentWave

/-- An engine that START_DP_WAVE excludes relies on its own request: it has one when it handles
the message, and is not left without one before it runs. -/
def KeepsRequest (s : Deployment numClients numEngines) : Op numClients numEngines → Prop
  | .handleInput k =>
    match (s.engines k).inputQueue.head? with
    | some (.startDPWave m) =>
      m.excludeEngIndex = .index k → (s.engines k).currentWave ≤ m.wave →
        (s.engines k).IsRunning
    | some (.abort requestIds) =>
      (s.engines k).enginesRunning = false → s.StartPassed k →
        ∃ id ∈ (s.engines k).unfinished, id ∉ requestIds
    | _ => True
  | .busyLoopStep k executed finished =>
    executed = false → (s.engines k).enginesRunning = false → s.StartPassed k →
      ∃ id ∈ (s.engines k).unfinished,
        id ∉ (s.engines k).abortsQueue.flatten ∧ id ∉ finished
  | _ => True

/-! ## The invariant -/

/-- The coordinator has started a wave. -/
def Started (s : Deployment numClients numEngines) (w : Nat) : Prop :=
  s.coordinator.currentWave = w ∧ s.coordinator.enginesRunning = true

/-- A front-end's notification has not reached the coordinator. -/
def FirstReqPending (s : Deployment numClients numEngines) : Prop :=
  ∃ c, (s.clients c).firstReqSocket ≠ [] ∨ s.firstReqs c ≠ []

/-- The coordinator has started a wave, or will start it when a notification arrives. -/
def Starting (s : Deployment numClients numEngines) (w : Nat) : Prop :=
  s.coordinator.currentWave = w ∧ (s.coordinator.enginesRunning = true ∨ s.FirstReqPending)

/-- All engines are in wave `w`, no other party is ahead of them, and whatever starts the wave
reaches every engine. -/
structure Synced (s : Deployment numClients numEngines) (w : Nat) : Prop where
  engine_wave : ∀ k, (s.engines k).currentWave = w
  coordinator_wave : s.coordinator.currentWave ≤ w
  wave_complete : ∀ k v, .waveComplete v ∈ s.outputs k → v < w
  start_wave : ∀ k v, .startWave v ∈ s.outputs k → v ≤ w
  start_dp_wave : ∀ k m, s.OnTheWay k (.startDPWave m) →
    m.wave < w ∨ (m.wave = w ∧ s.Started w)
  add : ∀ k id v, s.OnTheWay k (.add id v) → v < w ∨ (v = w ∧ s.Starting w)
  client : ∀ c, (s.clients c).currentWave ≤ s.coordinator.currentWave ∧
    ((s.clients c).currentWave = w → (s.clients c).enginesRunning = true → s.Starting w)
  published : ∀ c m, m ∈ s.published c → m.currentWave ≤ s.coordinator.currentWave ∧
    (m.currentWave = w → m.enginesRunning = true → s.Started w)
  first_step : ∀ k, (s.engines k).enginesRunning = false → (s.engines k).stepCounter = 0
  all_reduce : ∀ k b, (s.engines k).allReduce = some b →
    (s.engines k).enginesRunning = true ∧ (b = false → (s.engines k).unfinished = [])
  notified : s.Started w → ∀ k, (s.engines k).IsRunning ∨
    ∃ m, s.OnTheWay k (.startDPWave m) ∧ m.wave = w
  woken : ∀ k, (s.engines k).IsRunning →
    (∃ k', .startWave w ∈ s.outputs k') ∨ s.Starting w

theorem Started.starting (h : s.Started w) : s.Starting w := ⟨h.1, .inl h.2⟩

theorem Synced.init : (init numClients numEngines).Synced 0 where
  engine_wave _ := rfl
  coordinator_wave := le_rfl
  wave_complete _ _ h := absurd h List.not_mem_nil
  start_wave _ _ h := absurd h List.not_mem_nil
  start_dp_wave _ _ h := by
    rcases h with h | ⟨_, h⟩
    all_goals exact absurd h List.not_mem_nil
  add _ _ _ h := by
    rcases h with h | ⟨_, h⟩
    all_goals exact absurd h List.not_mem_nil
  client _ := ⟨le_rfl, fun _ h => by cases h⟩
  published _ _ h := absurd h List.not_mem_nil
  first_step _ _ := rfl
  all_reduce _ _ h := by cases h
  notified h := by cases h.2
  woken _ h := by
    rcases h with h | h
    all_goals cases h

/-- A deployment in step has lost no wake-up. -/
theorem Synced.noLostWakeUp (h : s.Synced w) : s.NoLostWakeUp := by
  rintro hquiet ⟨i, j, hi, hj⟩
  have hway : ∀ r, ¬ s.OnTheWay j r := by
    rintro r (hr | ⟨source, hr⟩)
    · rw [hquiet.inputQueue] at hr
      exact List.not_mem_nil hr
    · rw [hquiet.inputs] at hr
      exact List.not_mem_nil hr
  rcases h.woken i hi with ⟨k, hk⟩ | ⟨hwave, hrunning | ⟨c, hc | hc⟩⟩
  · rw [hquiet.outputs] at hk
    exact List.not_mem_nil hk
  · rcases h.notified ⟨hwave, hrunning⟩ j with hj' | ⟨m, hm, -⟩
    · exact hj.not_isRunning hj'
    · exact hway _ hm
  · exact hc (hquiet.firstReqSocket c)
  · exact hc (hquiet.firstReqs c)

/-! ## Steps of a client -/

/-- A change of one client and of what it sends: notifications are not lost, an added request
carries a wave that is over or being started, and the client's own view stays behind the
coordinator's state. -/
theorem Synced.client_step (h : s.Synced w) (hengines : s'.engines = s.engines)
    (hcoordinator : s'.coordinator = s.coordinator) (houtputs : s'.outputs = s.outputs)
    (hpending : s.FirstReqPending → s'.FirstReqPending)
    (hbefore : ∀ k r, s'.OnTheWay k r → s.OnTheWay k r ∨ (∃ ids, r = .abort ids) ∨
      ∃ id v, r = .add id v ∧ (v < w ∨ (v = w ∧ s'.Starting w))) (hafter : ∀ k r, s.OnTheWay k r → s'.OnTheWay k r)
    (hclient : ∀ c, (s'.clients c).currentWave ≤ s.coordinator.currentWave ∧
      ((s'.clients c).currentWave = w → (s'.clients c).enginesRunning = true → s'.Starting w))
    (hpublished : ∀ c m, m ∈ s'.published c → m ∈ s.published c) : s'.Synced w := by
  have hstarted : s'.Started w ↔ s.Started w := by
    unfold Started
    rw [hcoordinator]
  have hstarting : s.Starting w → s'.Starting w := by
    rintro ⟨hwave, hcause⟩
    unfold Starting
    rw [hcoordinator]
    exact ⟨hwave, hcause.imp_right hpending⟩
  refine
    { engine_wave := hengines ▸ h.engine_wave
      coordinator_wave := hcoordinator ▸ h.coordinator_wave
      wave_complete := houtputs ▸ h.wave_complete
      start_wave := houtputs ▸ h.start_wave
      start_dp_wave := ?_
      add := ?_
      client := hcoordinator ▸ hclient
      published := ?_
      first_step := hengines ▸ h.first_step
      all_reduce := hengines ▸ h.all_reduce
      notified := ?_
      woken := ?_ }
  · intro k m hm
    rw [hstarted]
    rcases hbefore k _ hm with hm | ⟨_, heq⟩ | ⟨_, _, heq, -⟩
    · exact h.start_dp_wave k m hm
    · cases heq
    · cases heq
  · intro k id v hm
    rcases hbefore k _ hm with hm | ⟨_, heq⟩ | ⟨_, _, heq, hv⟩
    · exact (h.add k id v hm).imp_right (And.imp_right hstarting)
    · cases heq
    · cases heq
      exact hv
  · intro c m hm
    rw [hcoordinator, hstarted]
    exact h.published c m (hpublished c m hm)
  · intro hs k
    rw [hengines]
    apply (h.notified (hstarted.mp hs) k).imp_right
    rintro ⟨m, hm, hwave⟩
    exact ⟨m, hafter k _ hm, hwave⟩
  · intro k hk
    rw [houtputs]
    rw [hengines] at hk
    exact (h.woken k hk).imp_right hstarting

theorem Synced.addRequest {id : String} (h : s.Synced w) : (s.addRequest c k id).Synced w := by
  have hpending : s.FirstReqPending → (s.addRequest c k id).FirstReqPending := by
    rintro ⟨c', hc'⟩
    refine ⟨c', hc'.imp_left ?_⟩
    rcases eq_or_ne c' c with rfl | hne
    · simp only [Deployment.addRequest, setClient, Function.update_self,
        DPAsyncMPClient.addRequestAsync]
      intro hsocket
      split
      · exact hsocket
      · simp
    · simp only [Deployment.addRequest, setClient, Function.update_of_ne hne]
      exact fun hsocket => hsocket
  have hstarting : s.Starting w → (s.addRequest c k id).Starting w :=
    fun hs => ⟨hs.1, hs.2.imp_right hpending⟩
  -- the client's view is of an earlier wave, or the client or the coordinator starts the wave
  have hview : (s.clients c).currentWave < w ∨
      ((s.clients c).currentWave = w ∧ (s.addRequest c k id).Starting w) := by
    obtain ⟨hle, hrunning⟩ := h.client c
    rcases (hle.trans h.coordinator_wave).lt_or_eq with hlt | heq
    · exact .inl hlt
    · refine .inr ⟨heq, ?_⟩
      cases hr : (s.clients c).enginesRunning
      case true => exact hstarting (hrunning heq hr)
      case false =>
        refine ⟨le_antisymm h.coordinator_wave (heq ▸ hle), .inr ⟨c, .inl ?_⟩⟩
        simp [Deployment.addRequest, setClient, DPAsyncMPClient.addRequestAsync, hr]
  refine h.client_step rfl rfl rfl hpending ?_ ?_ ?_ ?_
  · rintro k' r (hr | ⟨source, hr⟩)
    · exact .inl (.inl hr)
    · rcases Channels.mem_send.mp hr with hr | ⟨-, hr⟩
      · exact .inl (.inr ⟨source, hr⟩)
      · exact .inr (.inr ⟨id, _, List.mem_singleton.mp hr, hview⟩)
  · rintro k' r (hr | ⟨source, hr⟩)
    · exact .inl hr
    · exact .inr ⟨source, Channels.mem_send.mpr (.inl hr)⟩
  · intro c'
    have hkeeps : ((s.addRequest c k id).clients c').currentWave = (s.clients c').currentWave ∧
        ((s.addRequest c k id).clients c').enginesRunning = (s.clients c').enginesRunning := by
      rcases eq_or_ne c' c with rfl | hne
      · simp only [Deployment.addRequest, setClient, Function.update_self,
          DPAsyncMPClient.addRequestAsync]
        split
        · exact ⟨rfl, rfl⟩
        · exact ⟨rfl, rfl⟩
      · simp only [Deployment.addRequest, setClient, Function.update_of_ne hne, and_self]
    rw [hkeeps.1, hkeeps.2]
    exact (h.client c').imp_right fun hview hwave hrunning => hstarting (hview hwave hrunning)
  · exact fun _ _ hm => hm

theorem Synced.abortRequests {ids : List String} (h : s.Synced w) : (s.abortRequests c k ids).Synced w := by
  refine h.client_step rfl rfl rfl id ?_ ?_ ?_ ?_
  · rintro k' r (hr | ⟨source, hr⟩)
    · exact .inl (.inl hr)
    · rcases Channels.mem_send.mp hr with hr | ⟨-, hr⟩
      · exact .inl (.inr ⟨source, hr⟩)
      · unfold DPAsyncMPClient.abortRequestsAsync at hr
        split at hr
        · cases hr
        · exact .inr (.inl ⟨ids, List.mem_singleton.mp hr⟩)
  · rintro k' r (hr | ⟨source, hr⟩)
    · exact .inl hr
    · exact .inr ⟨source, Channels.mem_send.mpr (.inl hr)⟩
  · exact h.client
  · exact fun _ _ hm => hm

theorem sendFirstReq_eq_some (hs : s.sendFirstReq c = some s') :
    s' = { s.setClient c { s.clients c with
          enginesRunning := true, firstReqSocket := (s.clients c).firstReqSocket.tail } with
        firstReqs := s.firstReqs.send c (((s.clients c).firstReqSocket.take 1).map
          fun target => ⟨target, (s.clients c).currentWave⟩) } ∧
      (s.clients c).firstReqSocket ≠ [] := by
  obtain ⟨⟨client, m⟩, hsend, rfl⟩ := Option.map_eq_some_iff.mp hs
  unfold DPAsyncMPClient.sendFirstReq at hsend
  split at hsend
  · cases hsend
  · next hsocket =>
    cases hsend
    rw [hsocket]
    exact ⟨rfl, List.cons_ne_nil _ _⟩

theorem Synced.sendFirstReq (h : s.Synced w) (hs : s.sendFirstReq c = some s') : s'.Synced w := by
  obtain ⟨hs', hsocket⟩ := sendFirstReq_eq_some hs
  -- the notification is now on its way to the coordinator
  have hpending : s'.FirstReqPending := by
    refine ⟨c, .inr ?_⟩
    obtain ⟨target, rest, hcons⟩ := List.exists_cons_of_ne_nil hsocket
    rw [hs', hcons]
    exact List.ne_nil_of_mem (Channels.mem_send.mpr (.inr ⟨rfl, List.mem_singleton.mpr rfl⟩))
  have hwave : ∀ c', (s'.clients c').currentWave = (s.clients c').currentWave := by
    intro c'
    subst hs'
    rcases eq_or_ne c' c with rfl | hne
    · simp only [setClient, Function.update_self]
    · simp only [setClient, Function.update_of_ne hne]
  have hcoordinator : s'.coordinator = s.coordinator := by
    rw [hs']
    rfl
  refine h.client_step (hs' ▸ rfl) hcoordinator (hs' ▸ rfl) (fun _ => hpending) ?_ ?_ ?_ ?_
  · subst hs'
    exact fun _ _ hr => .inl hr
  · subst hs'
    exact fun _ _ hr => hr
  · intro c'
    rw [hwave]
    refine ⟨(h.client c').1, fun heq _ => ⟨?_, .inr hpending⟩⟩
    rw [hcoordinator]
    exact le_antisymm h.coordinator_wave (heq ▸ (h.client c').1)
  · subst hs'
    exact fun _ _ hm => hm

/-- What a client knows after a drain is what it knew or what was published. -/
theorem DPAsyncMPClient.updateState_eq (client : DPAsyncMPClient) (drained : List WaveState) :
    client.updateState drained = client ∨ ∃ m ∈ drained, client.updateState drained =
      { client with currentWave := m.currentWave, enginesRunning := m.enginesRunning } := by
  unfold DPAsyncMPClient.updateState
  split
  · exact .inl rfl
  · next m hlast => exact .inr ⟨m, List.mem_of_getLast? hlast, rfl⟩

theorem Synced.drainStats {arrived : Nat} (h : s.Synced w) (hs : s.drainStats c arrived = some s') : s'.Synced w := by
  unfold Deployment.drainStats at hs
  split at hs
  case isFalse => cases hs
  case isTrue =>
    have hs' := (Option.some.inj hs).symm
    have hview : ∀ c', s'.clients c' = s.clients c' ∨ ∃ m ∈ s.published c', s'.clients c' =
        { s.clients c' with
          currentWave := m.currentWave, enginesRunning := m.enginesRunning } := by
      intro c'
      subst hs'
      rcases eq_or_ne c' c with rfl | hne
      · simp only [setClient, Function.update_self]
        apply (DPAsyncMPClient.updateState_eq _ _).imp_right
        rintro ⟨m, hm, heq⟩
        exact ⟨m, List.mem_of_mem_take hm, heq⟩
      · left
        simp only [setClient, Function.update_of_ne hne]
    have hpending : s.FirstReqPending → s'.FirstReqPending := by
      rintro ⟨c', hc'⟩
      refine ⟨c', hc'.imp ?_ ?_⟩
      · rcases hview c' with heq | ⟨m, -, heq⟩
        · exact fun hne => heq ▸ hne
        · exact fun hne => heq ▸ hne
      · subst hs'
        exact fun hne => hne
    have hcoordinator : s'.coordinator = s.coordinator := by
      rw [hs']
      rfl
    have hstarting : s.Starting w → s'.Starting w :=
      fun hs => ⟨hcoordinator ▸ hs.1, hcoordinator ▸ hs.2.imp_right hpending⟩
    refine h.client_step (hs' ▸ rfl) hcoordinator (hs' ▸ rfl) hpending ?_ ?_ ?_ ?_
    · subst hs'
      exact fun _ _ hr => .inl hr
    · subst hs'
      exact fun _ _ hr => hr
    · intro c'
      rcases hview c' with heq | ⟨m, hm, heq⟩
      · rw [heq]
        exact (h.client c').imp_right fun hview hwave hrunning => hstarting (hview hwave hrunning)
      · rw [heq]
        exact (h.published c' m hm).imp_right fun hview hwave hrunning =>
          hstarting (hview hwave hrunning).starting
    · intro c' m hm
      subst hs'
      rcases eq_or_ne c' c with rfl | hne
      · simp only [Function.update_self] at hm
        exact List.mem_of_mem_drop hm
      · simp only [Function.update_of_ne hne] at hm
        exact hm

theorem Synced.statsUpdate {socketReady firstReqReady : Bool} {arrived : Nat} (h : s.Synced w)
    (hs : s.statsUpdate c socketReady firstReqReady arrived = some s') : s'.Synced w := by
  unfold Deployment.statsUpdate at hs
  split at hs
  case isFalse => cases hs
  case isTrue =>
    split at hs
    · obtain ⟨t, ht, hs⟩ := Option.bind_eq_some_iff.mp hs
      exact (h.sendFirstReq ht).drainStats hs
    · exact h.drainStats hs

/-! ## Steps of the coordinator -/

/-- A broadcast adds its message to what is on its way to every engine. -/
theorem onTheWay_sendStartWave {start : Option StartDPWave} {r : EngineCoreRequest} :
    (s.sendStartWave start).OnTheWay k r ↔ s.OnTheWay k r ∨ ∃ m, start = some m ∧ r = .startDPWave m := by
  have hnew : r ∈ start.toList.map EngineCoreRequest.startDPWave ↔
      ∃ m, start = some m ∧ r = .startDPWave m := by
    cases start
    case none => simp
    case some m => simp
  have hinputs : ∀ source, r ∈ (s.sendStartWave start).inputs (source, k) ↔
      r ∈ s.inputs (source, k) ∨ (source.isNone = true ∧
        r ∈ start.toList.map EngineCoreRequest.startDPWave) := by
    intro source
    show r ∈ Channels.broadcast s.inputs (fun i => i.1.isNone) _ (source, k) ↔ _
    exact Channels.mem_broadcast
  constructor
  · rintro (hr | ⟨source, hr⟩)
    · exact .inl (.inl hr)
    · rcases (hinputs source).mp hr with hr | ⟨-, hr⟩
      · exact .inl (.inr ⟨source, hr⟩)
      · exact .inr (hnew.mp hr)
  · rintro ((hr | ⟨source, hr⟩) | hr)
    · exact .inl hr
    · exact .inr ⟨source, (hinputs source).mpr (.inl hr)⟩
    · exact .inr ⟨none, (hinputs none).mpr (.inr ⟨rfl, hnew.mpr hr⟩)⟩

/-- The coordinator receives a message of a front-end or of an engine. It starts wave `v` or leaves
a wave that is over; what caused a start of the current wave has been received only when that wave
is started. -/
theorem Synced.coordinator_step (s' : Deployment numClients numEngines) (h : s.Synced w)
    (hengines : s'.engines = s.engines) (hclients : s'.clients = s.clients)
    (hpublished : s'.published = s.published)
    (hmono : s.coordinator.currentWave ≤ s'.coordinator.currentWave)
    (hle : s'.coordinator.currentWave ≤ w) (hstarted : s.Started w → s'.Started w)
    (hstarting : s.Starting w → s'.Starting w)
    (houtputs : ∀ k m, m ∈ s'.outputs k → m ∈ s.outputs k)
    (hcause : ∀ k, .startWave w ∈ s.outputs k → .startWave w ∈ s'.outputs k ∨ s'.Starting w)
    (hkept : ∀ k r, s.OnTheWay k r → s'.OnTheWay k r)
    (hnew : ∀ k r, s'.OnTheWay k r → s.OnTheWay k r ∨
      ∃ m, r = .startDPWave m ∧ (m.wave < w ∨ (m.wave = w ∧ s'.Started w)))
    (hbroadcast : s'.Started w → s.Started w ∨
      ∀ k, ∃ m, s'.OnTheWay k (.startDPWave m) ∧ m.wave = w) : s'.Synced w where
  engine_wave := hengines ▸ h.engine_wave
  coordinator_wave := hle
  wave_complete k v hv := h.wave_complete k v (houtputs k _ hv)
  start_wave k v hv := h.start_wave k v (houtputs k _ hv)
  start_dp_wave k m hm := by
    rcases hnew k _ hm with hm | ⟨m', heq, hm'⟩
    · exact (h.start_dp_wave k m hm).imp_right (And.imp_right hstarted)
    · cases heq
      exact hm'
  add k id v hm := by
    rcases hnew k _ hm with hm | ⟨m', heq, -⟩
    · exact (h.add k id v hm).imp_right (And.imp_right hstarting)
    · cases heq
  client c := by
    rw [hclients]
    exact ⟨(h.client c).1.trans hmono, fun hwave hrunning =>
      hstarting ((h.client c).2 hwave hrunning)⟩
  published c m hm := by
    rw [hpublished] at hm
    exact ⟨(h.published c m hm).1.trans hmono, fun hwave hrunning =>
      hstarted ((h.published c m hm).2 hwave hrunning)⟩
  first_step := hengines ▸ h.first_step
  all_reduce := hengines ▸ h.all_reduce
  notified hs k := by
    rw [hengines]
    rcases hbroadcast hs with hs | hs
    · apply (h.notified hs k).imp_right
      rintro ⟨m, hm, hwave⟩
      exact ⟨m, hkept k _ hm, hwave⟩
    · exact .inr (hs k)
  woken k hk := by
    rw [hengines] at hk
    rcases h.woken k hk with ⟨k', hk'⟩ | hs
    · exact (hcause k' hk').imp_left fun hk' => ⟨k', hk'⟩
    · exact .inr (hstarting hs)

/-- A message of a front-end starts the coordinator's wave unless it runs already. -/
theorem Synced.receiveFront {changed : Bool} (h : s.Synced w)
    (hs : s.receiveFront c = some (s', changed)) : s'.Synced w := by
  obtain ⟨⟨m, firstReqs⟩, -, hs⟩ := Option.map_eq_some_iff.mp hs
  simp only [DPCoordinatorProc.onFirstReq] at hs
  split at hs
  · -- the wave of the coordinator runs, with or without this message
    next hrunning =>
    cases hs
    refine h.coordinator_step _ rfl rfl rfl le_rfl h.coordinator_wave id
      (fun hs => ⟨hs.1, .inl hrunning⟩) (fun _ _ hm => hm) (fun _ hm => .inl hm) ?_ ?_ .inl
    · exact fun k r hr => onTheWay_sendStartWave.mpr (.inl hr)
    · intro k r hr
      rcases onTheWay_sendStartWave.mp hr with hr | ⟨_, hnone, -⟩
      · exact .inl hr
      · cases hnone
  · next hpaused =>
    cases hs
    have hway : ∀ k r, OnTheWay (sendStartWave { s with
        coordinator := { s.coordinator with enginesRunning := true }, firstReqs }
        (some ⟨s.coordinator.currentWave, if m.wave < s.coordinator.currentWave then .none
          else .identity m.targetEngIndex⟩)) k r ↔ s.OnTheWay k r ∨
        r = .startDPWave ⟨s.coordinator.currentWave, if m.wave < s.coordinator.currentWave then .none
          else .identity m.targetEngIndex⟩ := by
      intro k r
      rw [onTheWay_sendStartWave]
      apply or_congr Iff.rfl
      simp
    refine h.coordinator_step _ rfl rfl rfl le_rfl h.coordinator_wave (fun hs => ⟨hs.1, rfl⟩)
      (fun hs => ⟨hs.1, .inl rfl⟩) (fun _ _ hm => hm) (fun _ hm => .inl hm) ?_ ?_ ?_
    · exact fun k r hr => (hway k r).mpr (.inl hr)
    · intro k r hr
      rcases (hway k r).mp hr with hr | hr
      · exact .inl hr
      · exact .inr ⟨_, hr, h.coordinator_wave.lt_or_eq.imp_right fun heq => ⟨heq, heq, rfl⟩⟩
    · rintro ⟨heq, -⟩
      exact .inr fun k => ⟨_, (hway k _).mpr (.inr rfl), heq⟩

/-- A completed wave is behind the engines' wave; a start that an engine asks for is not ahead of
it. -/
theorem Synced.receiveBack {changed : Bool} (h : s.Synced w)
    (hs : s.receiveBack k = some (s', changed)) : s'.Synced w := by
  obtain ⟨⟨m, outputs⟩, hreceive, hs⟩ := Option.map_eq_some_iff.mp hs
  have hm := Channels.mem_of_receive hreceive
  have hbefore : ∀ k' m', m' ∈ outputs k' → m' ∈ s.outputs k' :=
    fun _ _ hm' => Channels.mem_before hreceive hm'
  have hafter : ∀ k' m', m' ∈ s.outputs k' → m' = m ∨ m' ∈ outputs k' :=
    fun _ _ hm' => (Channels.mem_after hreceive hm').imp_left And.right
  have hnone : ∀ (t : Deployment numClients numEngines) k r,
      (t.sendStartWave none).OnTheWay k r ↔ t.OnTheWay k r := by
    intro t k r
    rw [onTheWay_sendStartWave]
    simp
  cases m with
  | waveComplete v =>
    have hv := h.wave_complete k v hm
    have hcause : ∀ k', .startWave w ∈ s.outputs k' → .startWave w ∈ outputs k' := by
      intro k' hk'
      rcases hafter k' _ hk' with heq | hk'
      · cases heq
      · exact hk'
    simp only [DPCoordinatorProc.onOutputs] at hs
    split at hs
    · -- the coordinator was behind, so it had not started the engines' wave
      next hle =>
      cases hs
      refine h.coordinator_step _ rfl rfl rfl (Nat.le_succ_of_le hle) hv ?_ ?_ hbefore
        (fun k' hk' => .inl (hcause k' hk')) ?_ ?_ ?_
      · rintro ⟨heq, -⟩
        omega
      · rintro ⟨heq, -⟩
        omega
      · exact fun k' r hr => (hnone _ k' r).mpr hr
      · exact fun k' r hr => .inl ((hnone _ k' r).mp hr)
      · rintro ⟨-, hrunning⟩
        cases hrunning
    · cases hs
      refine h.coordinator_step _ rfl rfl rfl le_rfl h.coordinator_wave id id hbefore
        (fun k' hk' => .inl (hcause k' hk')) ?_ ?_ .inl
      · exact fun k' r hr => (hnone _ k' r).mpr hr
      · exact fun k' r hr => .inl ((hnone _ k' r).mp hr)
  | startWave v =>
    have hv := h.start_wave k v hm
    simp only [DPCoordinatorProc.onOutputs] at hs
    split at hs
    · next hstart =>
      cases hs
      have hcur : s.coordinator.currentWave ≤ v := by omega
      have hway : ∀ k' r, OnTheWay (sendStartWave { s with coordinator := ⟨v, true⟩, outputs }
          (some ⟨v, .index k⟩)) k' r ↔
          s.OnTheWay k' r ∨ r = .startDPWave ⟨v, .index k⟩ := by
        intro k' r
        rw [onTheWay_sendStartWave]
        apply or_congr Iff.rfl
        simp
      refine h.coordinator_step _ rfl rfl rfl hcur hv ?_ ?_ hbefore ?_ ?_ ?_ ?_
      · rintro ⟨heq, -⟩
        exact ⟨le_antisymm hv (heq ▸ hcur), rfl⟩
      · rintro ⟨heq, -⟩
        exact ⟨le_antisymm hv (heq ▸ hcur), .inl rfl⟩
      · intro k' hk'
        rcases hafter k' _ hk' with heq | hk'
        · cases heq
          exact .inr ⟨rfl, .inl rfl⟩
        · exact .inl hk'
      · exact fun k' r hr => (hway k' r).mpr (.inl hr)
      · intro k' r hr
        rcases (hway k' r).mp hr with hr | hr
        · exact .inl hr
        · exact .inr ⟨_, hr, hv.lt_or_eq.imp_right fun heq => ⟨heq, heq, rfl⟩⟩
      · rintro ⟨heq, -⟩
        exact .inr fun k' => ⟨_, (hway k' _).mpr (.inr rfl), heq⟩
    · -- the wave is over or started already
      next hstart =>
      cases hs
      refine h.coordinator_step _ rfl rfl rfl le_rfl h.coordinator_wave id id hbefore ?_ ?_ ?_ .inl
      · intro k' hk'
        rcases hafter k' _ hk' with heq | hk'
        · cases heq
          have heq : s.coordinator.currentWave = w := by
            have := h.coordinator_wave
            omega
          have hrunning : s.coordinator.enginesRunning = true := by
            rw [← Bool.not_eq_false]
            exact fun hr => hstart (.inr ⟨heq.symm, hr⟩)
          exact .inr ⟨heq, .inl hrunning⟩
        · exact .inl hk'
      · exact fun k' r hr => (hnone _ k' r).mpr hr
      · exact fun k' r hr => .inl ((hnone _ k' r).mp hr)

theorem Synced.publish (h : s.Synced w) : s.publish.Synced w where
  engine_wave := h.engine_wave
  coordinator_wave := h.coordinator_wave
  wave_complete := h.wave_complete
  start_wave := h.start_wave
  start_dp_wave := h.start_dp_wave
  add := h.add
  client := h.client
  published c m hm := by
    have hm : m ∈ Channels.broadcast s.published (fun _ => true) [s.coordinator.waveState] c := hm
    rcases Channels.mem_broadcast.mp hm with hm | ⟨-, hm⟩
    · exact h.published c m hm
    · cases List.mem_singleton.mp hm
      exact ⟨le_rfl, fun hwave hrunning => ⟨hwave, hrunning⟩⟩
  first_step := h.first_step
  all_reduce := h.all_reduce
  notified := h.notified
  woken := h.woken

theorem Synced.coordinate {front : Option (Fin numClients)} {back : Option (Fin numEngines)}
    (h : s.Synced w) (hs : s.coordinate front back = some s') : s'.Synced w := by
  unfold Deployment.coordinate at hs
  split at hs
  · cases hs
    exact h.publish
  · obtain ⟨⟨t, frontChanged⟩, ht, hs⟩ := Option.bind_eq_some_iff.mp hs
    obtain ⟨⟨u, backChanged⟩, hu, hs⟩ := Option.bind_eq_some_iff.mp hs
    have ht : t.Synced w := by
      cases front
      case none =>
        cases ht
        exact h
      case some c => exact h.receiveFront ht
    have hu : u.Synced w := by
      cases back
      case none =>
        cases hu
        exact ht
      case some k => exact ht.receiveBack hu
    cases hs
    split
    · exact hu.publish
    · exact hu

/-! ## Steps of an engine -/

theorem setEngine_engines (e : DPEngineCoreProc) (k' : Fin numEngines) :
    (s.setEngine k e).engines k' = if k' = k then e else s.engines k' :=
  Function.update_apply ..

section

variable (h : s.Synced w)
include h

/-- An engine moves between its queues, without a change of its wave or its requests. -/
theorem Synced.engine_queues {e : DPEngineCoreProc} (hs' : s'.clients = s.clients ∧ s'.coordinator = s.coordinator ∧
      s'.engines = (s.setEngine k e).engines ∧ s'.firstReqs = s.firstReqs ∧
      s'.outputs = s.outputs ∧ s'.published = s.published) (he : e.currentWave = (s.engines k).currentWave ∧
      e.enginesRunning = (s.engines k).enginesRunning ∧
      e.stepCounter = (s.engines k).stepCounter ∧ e.unfinished = (s.engines k).unfinished ∧
      e.allReduce = (s.engines k).allReduce) (hbefore : ∀ k r, s'.OnTheWay k r → s.OnTheWay k r)
    (hafter : ∀ k m, s.OnTheWay k (.startDPWave m) → s'.OnTheWay k (.startDPWave m)) : s'.Synced w := by
  obtain ⟨hclients, hcoordinator, hengines, hfirst, houtputs, hpublished⟩ := hs'
  have hsame : ∀ k', (s'.engines k').currentWave = (s.engines k').currentWave ∧
      (s'.engines k').enginesRunning = (s.engines k').enginesRunning ∧
      (s'.engines k').stepCounter = (s.engines k').stepCounter ∧
      (s'.engines k').unfinished = (s.engines k').unfinished ∧
      (s'.engines k').allReduce = (s.engines k').allReduce := by
    intro k'
    rw [hengines, setEngine_engines]
    split
    · next heq => exact heq ▸ he
    · exact ⟨rfl, rfl, rfl, rfl, rfl⟩
  have hrunning : ∀ k', (s'.engines k').IsRunning ↔ (s.engines k').IsRunning := by
    intro k'
    obtain ⟨-, hr, -, hu, -⟩ := hsame k'
    rw [DPEngineCoreProc.IsRunning, DPEngineCoreProc.IsRunning,
      DPEngineCoreProc.hasUnfinishedRequests, DPEngineCoreProc.hasUnfinishedRequests, hr, hu]
  have hstarted : s'.Started w ↔ s.Started w := by
    unfold Started
    rw [hcoordinator]
  have hstarting : s'.Starting w ↔ s.Starting w := by
    unfold Starting FirstReqPending
    rw [hcoordinator, hclients, hfirst]
  exact
    { engine_wave := fun k' => (hsame k').1.trans (h.engine_wave k')
      coordinator_wave := hcoordinator ▸ h.coordinator_wave
      wave_complete := houtputs ▸ h.wave_complete
      start_wave := houtputs ▸ h.start_wave
      start_dp_wave := fun k' m hm => by
        rw [hstarted]
        exact h.start_dp_wave k' m (hbefore k' _ hm)
      add := fun k' id v hm => by
        rw [hstarting]
        exact h.add k' id v (hbefore k' _ hm)
      client := fun c => by
        rw [hclients, hcoordinator, hstarting]
        exact h.client c
      published := fun c m hm => by
        rw [hcoordinator, hstarted]
        exact h.published c m (hpublished ▸ hm)
      first_step := fun k' hk' => by
        rw [(hsame k').2.1] at hk'
        exact (hsame k').2.2.1.trans (h.first_step k' hk')
      all_reduce := fun k' b hk' => by
        rw [(hsame k').2.1, (hsame k').2.2.2.1]
        exact h.all_reduce k' b ((hsame k').2.2.2.2 ▸ hk')
      notified := fun hs k' => by
        rw [hrunning]
        apply (h.notified (hstarted.mp hs) k').imp_right
        rintro ⟨m, hm, hwave⟩
        exact ⟨m, hafter k' m hm, hwave⟩
      woken := fun k' hk' => by
        rw [hstarting, houtputs]
        exact h.woken k' ((hrunning k').mp hk') }

theorem Synced.receive {source : Option (Fin numClients)} {preprocFails : Bool}
    (hs : s.receive k source preprocFails = some s') : s'.Synced w := by
  obtain ⟨⟨m, inputs⟩, hreceive, rfl⟩ := Option.map_eq_some_iff.mp hs
  have hpush : ∀ r, r ∈ ((s.engines k).pushInput preprocFails m).inputQueue →
      r ∈ (s.engines k).inputQueue ∨ r = m := by
    intro r hr
    unfold DPEngineCoreProc.pushInput at hr
    split at hr
    · split at hr
      · exact .inl hr
      · simpa using hr
    · simpa using hr
    · simpa using hr
  have hkept : ∀ r, r ∈ (s.engines k).inputQueue →
      r ∈ ((s.engines k).pushInput preprocFails m).inputQueue := by
    intro r hr
    unfold DPEngineCoreProc.pushInput
    split
    · split
      · exact hr
      · exact List.mem_append_left _ hr
    · exact List.mem_append_left _ hr
    · exact List.mem_append_left _ hr
  refine h.engine_queues (k := k) (e := (s.engines k).pushInput preprocFails m)
    ⟨rfl, rfl, rfl, rfl, rfl, rfl⟩ ?_ ?_ ?_
  · unfold DPEngineCoreProc.pushInput
    split
    · split <;> exact ⟨rfl, rfl, rfl, rfl, rfl⟩
    · exact ⟨rfl, rfl, rfl, rfl, rfl⟩
    · exact ⟨rfl, rfl, rfl, rfl, rfl⟩
  · rintro k' r (hr | ⟨source', hr⟩)
    · simp only [setEngine_engines] at hr
      split at hr
      · next heq =>
        subst heq
        rcases hpush r hr with hr | rfl
        · exact .inl hr
        · exact .inr ⟨source, Channels.mem_of_receive hreceive⟩
      · exact .inl hr
    · exact .inr ⟨source', Channels.mem_before hreceive hr⟩
  · rintro k' r (hr | ⟨source', hr⟩)
    · left
      simp only [setEngine_engines]
      split
      · next heq =>
        subst heq
        exact hkept _ hr
      · exact hr
    · rcases Channels.mem_after hreceive hr with ⟨hi, rfl⟩ | hr
      · cases hi
        left
        simp [setEngine_engines, DPEngineCoreProc.pushInput]
      · exact .inr ⟨source', hr⟩

theorem Synced.clearAborts (hs : s.clearAborts k = some s') : s'.Synced w := by
  unfold Deployment.clearAborts at hs
  split at hs
  case isFalse => cases hs
  case isTrue =>
    cases hs
    have hqueue : ∀ k' r, (s.setEngine k { s.engines k with abortsQueue := [] }).OnTheWay k' r ↔
        s.OnTheWay k' r := by
      intro k' r
      unfold OnTheWay
      rw [setEngine_engines]
      split
      · next heq => exact heq ▸ Iff.rfl
      · exact Iff.rfl
    exact h.engine_queues ⟨rfl, rfl, rfl, rfl, rfl, rfl⟩ ⟨rfl, rfl, rfl, rfl, rfl⟩
      (fun k' r hr => (hqueue k' r).mp hr) (fun k' m hm => (hqueue k' _).mpr hm)

/-- The busy loop of an engine takes a step: it stays in its wave, reports at most a start of this
wave, and runs afterwards only when it ran before or the wave is being started. -/
theorem Synced.engine_step {e : DPEngineCoreProc} {outputs : List EngineCoreOutputs}
    (hs' : s' = { s.setEngine k e with outputs := s.outputs.send k outputs }) (hwave : e.currentWave = w)
    (houtputs : ∀ o ∈ outputs, o = .startWave w) (hfirst : e.enginesRunning = false → e.stepCounter = 0)
    (hreduce : ∀ b, e.allReduce = some b →
      e.enginesRunning = true ∧ (b = false → e.unfinished = []))
    (hqueue : ∀ r ∈ e.inputQueue, r ∈ (s.engines k).inputQueue)
    (hnotified : s.Started w → e.IsRunning ∨ ∃ m, s'.OnTheWay k (.startDPWave m) ∧ m.wave = w)
    (hwoken : e.IsRunning → (s.engines k).IsRunning ∨ .startWave w ∈ outputs ∨ s.Starting w) : s'.Synced w := by
  have hengines : ∀ k', s'.engines k' = if k' = k then e else s.engines k' := by
    subst hs'
    exact setEngine_engines e
  have hsent : ∀ k' o, o ∈ s'.outputs k' ↔ o ∈ s.outputs k' ∨ (k' = k ∧ o ∈ outputs) := by
    subst hs'
    exact fun k' o => Channels.mem_send
  have hbefore : ∀ k' r, s'.OnTheWay k' r → s.OnTheWay k' r := by
    rintro k' r (hr | ⟨source, hr⟩)
    · rw [hengines] at hr
      split at hr
      · next heq => exact .inl (heq ▸ hqueue r hr)
      · exact .inl hr
    · subst hs'
      exact .inr ⟨source, hr⟩
  have hafter : ∀ k' r, k' ≠ k → s.OnTheWay k' r → s'.OnTheWay k' r := by
    rintro k' r hne (hr | ⟨source, hr⟩)
    · left
      rw [hengines, if_neg hne]
      exact hr
    · subst hs'
      exact .inr ⟨source, hr⟩
  have hstarted : s'.Started w ↔ s.Started w := by
    subst hs'
    exact Iff.rfl
  have hstarting : s'.Starting w ↔ s.Starting w := by
    subst hs'
    exact Iff.rfl
  refine
    { engine_wave := ?_
      coordinator_wave := by
        subst hs'
        exact h.coordinator_wave
      wave_complete := ?_
      start_wave := ?_
      start_dp_wave := fun k' m hm => by
        rw [hstarted]
        exact h.start_dp_wave k' m (hbefore k' _ hm)
      add := fun k' id v hm => by
        rw [hstarting]
        exact h.add k' id v (hbefore k' _ hm)
      client := by
        subst hs'
        exact h.client
      published := by
        subst hs'
        exact h.published
      first_step := ?_
      all_reduce := ?_
      notified := ?_
      woken := ?_ }
  · intro k'
    rw [hengines]
    split
    · exact hwave
    · exact h.engine_wave k'
  · intro k' v hv
    rcases (hsent k' _).mp hv with hv | ⟨-, hv⟩
    · exact h.wave_complete k' v hv
    · cases houtputs _ hv
  · intro k' v hv
    rcases (hsent k' _).mp hv with hv | ⟨-, hv⟩
    · exact h.start_wave k' v hv
    · cases houtputs _ hv
      exact le_rfl
  · intro k'
    rw [hengines]
    split
    · exact hfirst
    · exact h.first_step k'
  · intro k'
    rw [hengines]
    split
    · exact hreduce
    · exact h.all_reduce k'
  · intro hs k'
    rw [hengines]
    split
    · next heq => exact heq ▸ hnotified (hstarted.mp hs)
    · next hne =>
      apply (h.notified (hstarted.mp hs) k').imp_right
      rintro ⟨m, hm, hwave⟩
      exact ⟨m, hafter k' _ hne hm, hwave⟩
  · intro k' hk'
    rw [hstarting]
    have hkept : (∃ k', .startWave w ∈ s.outputs k') ∨ s.Starting w →
        (∃ k', .startWave w ∈ s'.outputs k') ∨ s.Starting w := by
      apply Or.imp_left
      rintro ⟨k', hk'⟩
      exact ⟨k', (hsent k' _).mpr (.inl hk')⟩
    rw [hengines] at hk'
    split at hk'
    · rcases hwoken hk' with hk' | hk' | hs
      · exact hkept (h.woken k hk')
      · exact .inl ⟨k, (hsent k _).mpr (.inr ⟨rfl, hk'⟩)⟩
      · exact .inr hs
    · exact hkept (h.woken k' hk')

theorem Synced.handleInput (hkeeps : s.KeepsRequest (.handleInput k)) (hs : s.handleInput k = some s') :
    s'.Synced w := by
  unfold Deployment.handleInput at hs
  split at hs
  case h_2 => cases hs
  case h_1 m rest hreduce hqueue =>
    have hwave := h.engine_wave k
    have hhead : s.OnTheWay k m := .inl (hqueue ▸ List.mem_cons_self)
    have hrest : ∀ r ∈ rest, r ∈ (s.engines k).inputQueue := by
      intro r hr
      rw [hqueue]
      exact List.mem_cons_of_mem _ hr
    -- a START_DP_WAVE message that is not handled now is still on its way
    have hway : ∀ t : Deployment numClients numEngines, t.inputs = s.inputs →
        (t.engines k).inputQueue = rest → ∀ m', m ≠ .startDPWave m' →
        s.OnTheWay k (.startDPWave m') → t.OnTheWay k (.startDPWave m') := by
      rintro t hinputs hrest' m' hne (hm' | ⟨source, hm'⟩)
      · rw [hqueue] at hm'
        rcases List.mem_cons.mp hm' with heq | hm'
        · exact absurd heq.symm hne
        · exact .inl (hrest' ▸ hm')
      · exact .inr ⟨source, hinputs ▸ hm'⟩
    have hs' : s' =
        { s.setEngine k (((s.engines k).setInputQueue rest).handleClientRequest k m).1 with
          outputs := s.outputs.send k
            (((s.engines k).setInputQueue rest).handleClientRequest k m).2 } :=
      (Option.some.inj hs).symm
    cases m with
    | add id v =>
      have hadd := h.add k id v hhead
      have hsame : ((s.engines k).setInputQueue rest).currentWave = w := hwave
      have hle : v ≤ ((s.engines k).setInputQueue rest).currentWave := by omega
      rw [DPEngineCoreProc.handleClientRequest, DPEngineCoreProc.addRequest_eq hle] at hs'
      refine h.engine_step hs' hwave ?_ (h.first_step k) ?_ hrest ?_ ?_
      · intro o ho
        split at ho
        · rw [List.mem_singleton.mp ho, hsame]
        · cases ho
      · intro b hb
        cases hreduce.symm.trans hb
      · intro hstarted
        rcases h.notified hstarted k with hr | ⟨m', hm', hm'w⟩
        · left
          apply hr.imp_right
          intro hu
          obtain ⟨id', hid'⟩ := DPEngineCoreProc.hasUnfinishedRequests_iff.mp hu
          exact DPEngineCoreProc.hasUnfinishedRequests_iff.mpr
            ⟨id', List.mem_insert_of_mem hid'⟩
        · right
          refine ⟨m', ?_, hm'w⟩
          apply hway s' _ _ m' (fun heq => by cases heq) hm'
          · rw [hs']
            rfl
          · rw [hs']
            simp [setEngine_engines, DPEngineCoreProc.setInputQueue]
      · intro _
        rcases hadd with hlt | ⟨-, hstarting⟩
        · cases hr : (s.engines k).enginesRunning
          case true => exact .inl (.inl hr)
          case false =>
            right
            left
            rw [if_pos ⟨hsame.symm ▸ hlt, hr⟩, hsame]
            exact List.mem_singleton.mpr rfl
        · exact .inr (.inr hstarting)
    | abort ids =>
      refine h.engine_step hs' hwave (fun _ ho => absurd ho List.not_mem_nil) (h.first_step k) ?_
        hrest ?_ ?_
      · intro b hb
        obtain ⟨hr, hu⟩ := h.all_reduce k b hb
        refine ⟨hr, fun hfalse => ?_⟩
        show (s.engines k).unfinished.filter _ = []
        rw [hu hfalse]
        rfl
      · intro hstarted
        by_cases hpending : ∃ m, s.OnTheWay k (.startDPWave m) ∧ m.wave = w
        · obtain ⟨m', hm', hm'w⟩ := hpending
          right
          refine ⟨m', ?_, hm'w⟩
          apply hway s' _ _ m' (fun heq => by cases heq) hm'
          · rw [hs']
            rfl
          · rw [hs']
            simp [setEngine_engines, DPEngineCoreProc.handleClientRequest,
              DPEngineCoreProc.abortRequests, DPEngineCoreProc.setInputQueue]
        · -- START_DP_WAVE has passed the engine, so an engine not yet running keeps a request
          cases hr : (s.engines k).enginesRunning
          case true => exact .inl (.inl hr)
          case false =>
            have hpassed : s.StartPassed k :=
              ⟨hstarted.1.trans hwave.symm, hstarted.2, fun m' hm' heq =>
                hpending ⟨m', hm', heq.trans hwave⟩⟩
            rw [KeepsRequest, hqueue] at hkeeps
            obtain ⟨id, hid, hnot⟩ := hkeeps hr hpassed
            refine .inl (.inr (DPEngineCoreProc.hasUnfinishedRequests_iff.mpr ⟨id, ?_⟩))
            exact List.mem_filter.mpr ⟨hid, decide_eq_true hnot⟩
      · rintro (hr | hu)
        · exact .inl (.inl hr)
        · obtain ⟨id, hid⟩ := DPEngineCoreProc.hasUnfinishedRequests_iff.mp hu
          exact .inl (.inr (DPEngineCoreProc.hasUnfinishedRequests_iff.mpr
            ⟨id, List.mem_of_mem_filter hid⟩))
    | startDPWave m =>
      have hm := h.start_dp_wave k m hhead
      rw [KeepsRequest, hqueue] at hkeeps
      simp only [DPEngineCoreProc.handleClientRequest, DPEngineCoreProc.startDPWave] at hs'
      split at hs'
      · next hstart =>
        -- the engine runs, in the wave it is in
        have hmw : m.wave = w := by
          have := hstart.2
          have : (s.engines k).currentWave ≤ m.wave := this
          omega
        obtain ⟨-, hstarted⟩ := hm.resolve_left (by omega)
        refine h.engine_step hs' hmw (fun _ ho => absurd ho List.not_mem_nil)
          (fun hr => by cases hr) ?_ hrest (fun _ => .inl (.inl rfl))
          (fun _ => .inr (.inr hstarted.starting))
        intro b hb
        cases hreduce.symm.trans hb
      · next hskip =>
        refine h.engine_step hs' hwave (fun _ ho => absurd ho List.not_mem_nil) (h.first_step k)
          (h.all_reduce k) hrest ?_ .inl
        intro hstarted
        by_cases hmw : m.wave = w
        · -- the message excludes the engine, which therefore has its own request
          left
          have hle : (s.engines k).currentWave ≤ m.wave := by omega
          apply hkeeps _ hle
          by_contra hne
          exact hskip ⟨hne, hle⟩
        · rcases h.notified hstarted k with hr | ⟨m', hm', hm'w⟩
          · exact .inl hr
          · right
            refine ⟨m', ?_, hm'w⟩
            apply hway s' _ _ m' _ hm'
            · rw [hs']
              rfl
            · rw [hs']
              simp [setEngine_engines, DPEngineCoreProc.setInputQueue]
            · intro heq
              cases heq
              exact hmw hm'w

theorem Synced.busyLoopStep {executed : Bool} {finished : List String}
    (hkeeps : s.KeepsRequest (.busyLoopStep k executed finished)) (hs : s.busyLoopStep k executed finished = some s') :
    s'.Synced w := by
  unfold Deployment.busyLoopStep at hs
  split at hs
  case isFalse => cases hs
  case isTrue hguard =>
    obtain ⟨hreduce, hexecuted⟩ := hguard
    obtain ⟨hwave, hrunning, hcounter, hqueue, hsame⟩ :=
      DPEngineCoreProc.processEngineStep_fields (s.engines k) finished
    have hs' : s' = { s.setEngine k ((s.engines k).busyLoopStep executed finished) with
        outputs := s.outputs.send k [] } := by
      rw [← Option.some.inj hs, Channels.send, List.append_nil, Function.update_eq_self]
      rfl
    -- an engine with a request left had one before
    have hbefore : ((s.engines k).processEngineStep finished).IsRunning →
        (s.engines k).IsRunning := by
      rintro (hr | hu)
      · exact .inl (hrunning ▸ hr)
      · obtain ⟨id, hid⟩ := DPEngineCoreProc.hasUnfinishedRequests_iff.mp hu
        exact .inr (DPEngineCoreProc.hasUnfinishedRequests_iff.mpr
          ⟨id, (DPEngineCoreProc.mem_unfinished_processEngineStep.mp hid).1⟩)
    have hinputs : ∀ r ∈ ((s.engines k).processEngineStep finished).inputQueue,
        r ∈ (s.engines k).inputQueue := hqueue ▸ fun _ hr => hr
    have hno : ∀ o ∈ ([] : List EngineCoreOutputs), o = .startWave w :=
      fun _ ho => absurd ho List.not_mem_nil
    rcases DPEngineCoreProc.busyLoopStep_cases (s.engines k) executed finished with
      ⟨hidle, hpaused, heq⟩ | ⟨hgoes, heq⟩ | ⟨hsteps, heq⟩
    · rw [heq] at hs'
      refine h.engine_step hs' (hwave.trans (h.engine_wave k)) hno ?_ ?_ hinputs ?_
        fun hr => .inl (hbefore hr)
      · rw [hrunning, hcounter]
        exact h.first_step k
      · intro b hb
        cases (hsame.trans hreduce).symm.trans hb
      · intro hstarted
        by_cases hpending : ∃ m, s.OnTheWay k (.startDPWave m) ∧ m.wave = w
        · obtain ⟨m, hm, hmw⟩ := hpending
          right
          refine ⟨m, hm.imp ?_ ?_, hmw⟩
          · rw [hs', ← hqueue]
            exact fun hm => (setEngine_engines (s := s) _ k).symm ▸ (if_pos rfl) ▸ hm
          · rw [hs']
            exact fun hm => hm
        · have hpassed : s.StartPassed k :=
            ⟨hstarted.1.trans (h.engine_wave k).symm, hstarted.2, fun m hm heq =>
              hpending ⟨m, hm, heq.trans (h.engine_wave k)⟩⟩
          obtain ⟨id, hid⟩ := hkeeps hidle hpaused hpassed
          exact .inl (.inr (DPEngineCoreProc.hasUnfinishedRequests_iff.mpr
            ⟨id, DPEngineCoreProc.mem_unfinished_processEngineStep.mpr hid⟩))
    · rw [heq] at hs'
      refine h.engine_step hs' (hwave.trans (h.engine_wave k)) hno (fun hr => by cases hr) ?_
        hinputs (fun _ => .inl (.inl rfl)) fun _ => .inl ?_
      · intro b hb
        cases (hsame.trans hreduce).symm.trans hb
      · rcases hgoes with hexec | hr
        · exact .inr (hexecuted hexec)
        · exact hbefore hr
    · -- an engine that does not run yet takes its first step, not the last of 32
      have hr : (s.engines k).enginesRunning = true := by
        rw [← Bool.not_eq_false]
        intro hr
        rw [h.first_step k hr] at hsteps
        cases hsteps
      rw [heq] at hs'
      refine h.engine_step hs' (hwave.trans (h.engine_wave k)) hno ?_ ?_ hinputs
        (fun _ => .inl (.inl (hrunning.trans hr))) fun _ => .inl (.inl hr)
      · intro hfalse
        cases (hrunning.trans hr).symm.trans hfalse
      · rintro b hb
        refine ⟨hrunning.trans hr, fun hfalse => ?_⟩
        have hnone := (Option.some.inj hb).trans hfalse
        rw [List.eq_nil_iff_forall_not_mem]
        intro id hid
        cases hnone.symm.trans (DPEngineCoreProc.hasUnfinishedRequests_iff.mpr ⟨id, hid⟩)

/-- The joint step: with a request left anywhere all engines go on, and otherwise all of them pause
in the next wave. -/
theorem Synced.allReduce (hs : s.allReduce = some s') : ∃ w', s'.Synced w' := by
  unfold Deployment.allReduce at hs
  split at hs
  case isFalse => cases hs
  case isTrue hall =>
    have hr : ∀ k, (s.engines k).enginesRunning = true := by
      intro k
      obtain ⟨b, hb⟩ := Option.ne_none_iff_exists'.mp (hall k)
      exact (h.all_reduce k b hb).1
    by_cases hunfinished : ∃ k, (s.engines k).allReduce = some true
    · have hs' : s' = { s with
          engines := fun k => { s.engines k with enginesRunning := true, allReduce := none } } := by
        rw [← Option.some.inj hs]
        simp [hunfinished, DPEngineCoreProc.afterAllReduce]
      subst hs'
      exact ⟨w,
        { engine_wave := h.engine_wave
          coordinator_wave := h.coordinator_wave
          wave_complete := h.wave_complete
          start_wave := h.start_wave
          start_dp_wave := h.start_dp_wave
          add := h.add
          client := h.client
          published := h.published
          first_step := fun _ hfalse => by cases hfalse
          all_reduce := fun _ _ hb => by cases hb
          notified := fun _ _ => .inl (.inl rfl)
          woken := fun k _ => h.woken k (.inl (hr k)) }⟩
    · have hnone : ∀ k, (s.engines k).unfinished = [] := by
        intro k
        obtain ⟨b, hb⟩ := Option.ne_none_iff_exists'.mp (hall k)
        cases b
        case false => exact (h.all_reduce k false hb).2 rfl
        case true => exact absurd ⟨k, hb⟩ hunfinished
      have hs' : s' = { s with
          engines := fun k => { s.engines k with
            enginesRunning := false, allReduce := none
            currentWave := (s.engines k).currentWave + 1, stepCounter := 0 }
          outputs := fun k => s.outputs k ++
            if k.val = 0 then [.waveComplete (s.engines k).currentWave] else [] } := by
        rw [← Option.some.inj hs]
        simp [hunfinished, DPEngineCoreProc.afterAllReduce]
      have hsent : ∀ k o, o ∈ s'.outputs k → o ∈ s.outputs k ∨ o = .waveComplete w := by
        intro k o ho
        rw [hs'] at ho
        rcases List.mem_append.mp ho with ho | ho
        · exact .inl ho
        · split at ho
          · rw [List.mem_singleton.mp ho, h.engine_wave k]
            exact .inr rfl
          · cases ho
      have hpaused : ∀ k, ¬ (s'.engines k).IsRunning := by
        rw [hs']
        rintro k (hfalse | hu)
        · cases hfalse
        · obtain ⟨id, hid⟩ := DPEngineCoreProc.hasUnfinishedRequests_iff.mp hu
          exact absurd hid (hnone k ▸ List.not_mem_nil)
      refine ⟨w + 1, ?_⟩
      have hwave := h.coordinator_wave
      refine
        { engine_wave := ?_
          coordinator_wave := ?_
          wave_complete := ?_
          start_wave := ?_
          start_dp_wave := ?_
          add := ?_
          client := ?_
          published := ?_
          first_step := ?_
          all_reduce := ?_
          notified := ?_
          woken := fun k hk => absurd hk (hpaused k) }
      · intro k
        rw [hs']
        exact congrArg (· + 1) (h.engine_wave k)
      · rw [hs']
        exact Nat.le_succ_of_le hwave
      · intro k v hv
        rcases hsent k _ hv with hv | heq
        · exact Nat.lt_succ_of_lt (h.wave_complete k v hv)
        · cases heq
          exact Nat.lt_succ_self w
      · intro k v hv
        rcases hsent k _ hv with hv | heq
        · exact Nat.le_succ_of_le (h.start_wave k v hv)
        · cases heq
      · intro k m hm
        rw [hs'] at hm
        have := h.start_dp_wave k m hm
        omega
      · intro k id v hm
        rw [hs'] at hm
        have := h.add k id v hm
        omega
      · intro c
        rw [hs']
        refine ⟨(h.client c).1, fun heq => ?_⟩
        have := (h.client c).1
        have heq : (s.clients c).currentWave = w + 1 := heq
        omega
      · intro c m hm
        rw [hs'] at hm ⊢
        refine ⟨(h.published c m hm).1, fun heq => ?_⟩
        have := (h.published c m hm).1
        omega
      · rw [hs']
        exact fun _ _ => rfl
      · rw [hs']
        intro _ _ hb
        cases hb
      · rw [hs']
        rintro ⟨heq, -⟩
        have heq : s.coordinator.currentWave = w + 1 := heq
        omega

/-! ## Runs -/

theorem Synced.step {op : Op numClients numEngines} (hkeeps : s.KeepsRequest op) (hs : s.step op = some s') :
    ∃ w', s'.Synced w' := by
  cases op with
  | addRequest c k id =>
    cases hs
    exact ⟨w, h.addRequest⟩
  | abortRequests c k ids =>
    cases hs
    exact ⟨w, h.abortRequests⟩
  | statsUpdate c socketReady firstReqReady arrived => exact ⟨w, h.statsUpdate hs⟩
  | coordinate front back => exact ⟨w, h.coordinate hs⟩
  | receive k source preprocFails => exact ⟨w, h.receive hs⟩
  | handleInput k => exact ⟨w, h.handleInput hkeeps hs⟩
  | clearAborts k => exact ⟨w, h.clearAborts hs⟩
  | busyLoopStep k executed finished => exact ⟨w, h.busyLoopStep hkeeps hs⟩
  | allReduce => exact h.allReduce hs

end

/-- Over every run in which an excluded engine keeps its request until it runs, no wake-up is
lost. -/
theorem no_lost_wake_up (h : ReachedBy step KeepsRequest (init numClients numEngines) s) : s.NoLostWakeUp := by
  have hsynced : ∃ w, s.Synced w := by
    refine ReachedBy.invariant (P := fun s => ∃ w, s.Synced w) ⟨0, Synced.init⟩ ?_ h
    rintro s op s' ⟨w, hw⟩ hkeeps hs
    exact hw.step hkeeps hs
  obtain ⟨w, hw⟩ := hsynced
  exact hw.noLostWakeUp

/-- The second engine is woken for a request of the first one. -/
theorem no_lost_wake_up_first_request : ∃ s, runAll step (init 1 2)
    [.addRequest 0 0 "a", .statsUpdate 0 false true 0, .coordinate (some 0) none,
      .receive 1 none false, .handleInput 1] = some s ∧ s.NoLostWakeUp :=
  ⟨_, rfl, no_lost_wake_up
    (.step (.handleInput 1)
      (.step (.receive 1 none false)
        (.step (.coordinate (some 0) none)
          (.step (.statsUpdate 0 false true 0)
            (.step (.addRequest 0 0 "a") .start trivial rfl) trivial rfl) trivial rfl) trivial rfl)
      (fun h => absurd h (by decide)) rfl)⟩

/-- Request "a" runs on the first engine and wave 0 ends. A front-end that has not heard of that
adds request "b" for wave 0 and aborts it, both before the second engine's first step. -/
def abortOvertakesStart : List (Op 1 2) :=
  [.addRequest 0 0 "a", .statsUpdate 0 false true 0, .coordinate (some 0) none,
    .receive 0 (some 0) false, .receive 0 none false, .receive 1 none false,
    .handleInput 0, .handleInput 0, .handleInput 1, .busyLoopStep 0 true ["a"]] ++
  List.replicate 31 (.busyLoopStep 0 false []) ++ List.replicate 32 (.busyLoopStep 1 false []) ++
  [.allReduce, .statsUpdate 0 true false 1,
    .addRequest 0 1 "b", .abortRequests 0 1 ["b"], .coordinate none (some 0),
    .receive 1 (some 0) false, .receive 1 (some 0) false, .handleInput 1, .handleInput 1,
    .coordinate none (some 1), .receive 0 none false, .receive 1 none false,
    .handleInput 0, .handleInput 1, .statsUpdate 0 true false 2]

/-- The coordinator excludes the engine that asked for the wave, which has nothing left to run. -/
theorem lost_wake_up_of_abort : ∃ s, Reached step (init 1 2) s ∧ ¬ s.NoLostWakeUp := by
  have hlost : (runAll step (init 1 2) abortOvertakesStart).any
      (fun s => decide (¬ s.NoLostWakeUp)) = true := by decide +kernel
  obtain ⟨s, hs, hlost⟩ := (Option.any_eq_true _ _).mp hlost
  exact ⟨s, reached_of_runAll hs, of_decide_eq_true hlost⟩

end Deployment

end Yuan.Engine
