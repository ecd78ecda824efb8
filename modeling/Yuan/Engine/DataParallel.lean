import Yuan.Lib.Channel
import Yuan.Lib.Runs
import Mathlib.Data.Fintype.Basic

/-! # Data-parallel engines

The parties of a data-parallel deployment: front-end clients, the coordinator process and the
engine core processes, each with the state its wave coordination reads and writes, and the
messages between them. Load statistics and elastic scaling are left out; the engine a client
chooses for a request is arbitrary. An engine's scheduler is the list of its unfinished
requests. -/

namespace Yuan.Engine

/-! ## Messages -/

/-- The ZMQ identity of an engine, `rank.to_bytes(2, "little")`. -/
structure EngineIdentity where
  rank : Nat
  deriving DecidableEq

/-- `exclude_engine_index` of a START_DP_WAVE message: what a front-end sends as the target of
its request is the engine's identity, what an engine's outputs carry is its index. -/
inductive ExcludeEngine where
  | none
  | identity (engine : EngineIdentity)
  | index (engIndex : Nat)
  deriving DecidableEq

/-- The data of a START_DP_WAVE message. -/
structure StartDPWave where
  wave : Nat
  excludeEngIndex : ExcludeEngine
  deriving DecidableEq

/-- `(EngineCoreRequestType, data)` as an engine's input sockets receive it. -/
inductive EngineCoreRequest where
  | add (requestId : String) (currentWave : Nat)
  | abort (requestIds : List String)
  | startDPWave (data : StartDPWave)
  deriving DecidableEq

/-- What an engine sends to the coordinator. -/
inductive EngineCoreOutputs where
  | waveComplete (wave : Nat)
  | startWave (wave : Nat)
  deriving DecidableEq

/-- What a front-end sends to the coordinator with its first request. -/
structure FirstReq where
  targetEngIndex : EngineIdentity
  wave : Nat
  deriving DecidableEq

/-- What the coordinator publishes to the front-ends. -/
structure WaveState where
  currentWave : Nat
  enginesRunning : Bool
  deriving DecidableEq

/-! ## Front-end client -/

/-- `DPAsyncMPClient`: `firstReqSocket` holds the FIRST_REQ notifications its stats update task
has not read yet. -/
structure DPAsyncMPClient where
  currentWave : Nat
  enginesRunning : Bool
  firstReqSocket : List EngineIdentity
  deriving DecidableEq

namespace DPAsyncMPClient

def init : DPAsyncMPClient := ⟨0, false, []⟩

/-- `add_request_async`: the ADD message for the chosen engine, and a notification when the
engines are not known to run. -/
def addRequestAsync (c : DPAsyncMPClient) (requestId : String) (chosenEngine : EngineIdentity) :
    DPAsyncMPClient × EngineCoreRequest :=
  (if c.enginesRunning then c
    else { c with firstReqSocket := c.firstReqSocket ++ [chosenEngine] },
    .add requestId c.currentWave)

/-- `abort_requests_async`: nothing is sent for an empty list. -/
def abortRequestsAsync (requestIds : List String) : List EngineCoreRequest :=
  if requestIds = [] then [] else [.abort requestIds]

/-- The stats update task decides by the sockets its poll reported whether it handles a FIRST_REQ
first. -/
def handlesFirstReq (c : DPAsyncMPClient) (socketReady firstReqReady : Bool) : Bool :=
  (!c.enginesRunning && (socketReady && firstReqReady)) || (!socketReady && firstReqReady)

/-- A FIRST_REQ read from the task's socket goes to the coordinator with the wave known by now. -/
def sendFirstReq (c : DPAsyncMPClient) : Option (DPAsyncMPClient × FirstReq) :=
  match c.firstReqSocket with
  | [] => none
  | targetEngIndex :: rest =>
    some ({ c with enginesRunning := true, firstReqSocket := rest },
      ⟨targetEngIndex, c.currentWave⟩)

/-- Only the latest of the drained stats events counts. -/
def updateState (c : DPAsyncMPClient) (drained : List WaveState) : DPAsyncMPClient :=
  match drained.getLast? with
  | none => c
  | some m => { c with currentWave := m.currentWave, enginesRunning := m.enginesRunning }

end DPAsyncMPClient

/-! ## Coordinator -/

/-- The wave state of `DPCoordinatorProc.process_input_socket`. -/
structure DPCoordinatorProc where
  currentWave : Nat
  enginesRunning : Bool
  deriving DecidableEq

namespace DPCoordinatorProc

def init : DPCoordinatorProc := ⟨0, false⟩

/-- A message of a front-end. The START_DP_WAVE message to broadcast, if any, says that the wave
state changed. -/
def onFirstReq (p : DPCoordinatorProc) (m : FirstReq) :
    DPCoordinatorProc × Option StartDPWave :=
  if p.enginesRunning then (p, none)
  else
    -- a stale wave number: the message must be handled by all the engines
    let engineToExclude :=
      if m.wave < p.currentWave then .none else .identity m.targetEngIndex
    ({ p with enginesRunning := true }, some ⟨p.currentWave, engineToExclude⟩)

/-- A message of an engine: the new state, what to broadcast, and whether the wave state
changed. -/
def onOutputs (p : DPCoordinatorProc) (engIndex : Nat) :
    EngineCoreOutputs → DPCoordinatorProc × Option StartDPWave × Bool
  | .waveComplete wave =>
    if p.currentWave ≤ wave then (⟨wave + 1, false⟩, none, true) else (p, none, false)
  | .startWave wave =>
    if p.currentWave < wave ∨ (wave = p.currentWave ∧ p.enginesRunning = false) then
      (⟨wave, true⟩, some ⟨wave, .index engIndex⟩, true)
    else (p, none, false)

/-- The state as it is published. -/
def waveState (p : DPCoordinatorProc) : WaveState := ⟨p.currentWave, p.enginesRunning⟩

end DPCoordinatorProc

/-! ## Engine -/

/-- `DPEngineCoreProc`: `unfinished` are the scheduler's unfinished requests and `allReduce` is
the local value with which the engine waits in the all-reduce. -/
structure DPEngineCoreProc where
  currentWave : Nat
  enginesRunning : Bool
  stepCounter : Nat
  unfinished : List String
  inputQueue : List EngineCoreRequest
  abortsQueue : List (List String)
  allReduce : Option Bool
  deriving DecidableEq

namespace DPEngineCoreProc

def init : DPEngineCoreProc := ⟨0, false, 0, [], [], [], none⟩

def hasUnfinishedRequests (e : DPEngineCoreProc) : Bool := !e.unfinished.isEmpty

def setInputQueue (e : DPEngineCoreProc) (inputQueue : List EngineCoreRequest) :
    DPEngineCoreProc :=
  { e with inputQueue }

/-- `add_request` -/
def addRequest (e : DPEngineCoreProc) (requestId : String) (requestWave : Nat) :
    DPEngineCoreProc × List EngineCoreOutputs :=
  let e := { e with unfinished := e.unfinished.insert requestId }
  if requestWave ≠ e.currentWave then
    if e.currentWave < requestWave then ({ e with currentWave := requestWave }, [])
    else if e.enginesRunning = false then
      -- a request for an already completed wave: the next one must be started
      (e, [.startWave e.currentWave])
    else (e, [])
  else (e, [])

/-- `abort_requests` -/
def abortRequests (e : DPEngineCoreProc) (requestIds : List String) : DPEngineCoreProc :=
  { e with unfinished := e.unfinished.filter (· ∉ requestIds) }

/-- The START_DP_WAVE branch of `_handle_client_request`. -/
def startDPWave (e : DPEngineCoreProc) (engineIndex : Nat) (m : StartDPWave) : DPEngineCoreProc :=
  if m.excludeEngIndex ≠ .index engineIndex ∧ e.currentWave ≤ m.wave then
    { e with currentWave := m.wave, enginesRunning := true }
  else e

/-- `_handle_client_request` -/
def handleClientRequest (e : DPEngineCoreProc) (engineIndex : Nat) :
    EngineCoreRequest → DPEngineCoreProc × List EngineCoreOutputs
  | .add requestId requestWave => e.addRequest requestId requestWave
  | .abort requestIds => (e.abortRequests requestIds, [])
  | .startDPWave m => (e.startDPWave engineIndex m, [])

/-- The input socket thread pushes a message to the input queue, an abort also to the queue of
aborts; an ADD whose preprocessing fails is dropped. -/
def pushInput (e : DPEngineCoreProc) (preprocFails : Bool) : EngineCoreRequest → DPEngineCoreProc
  | .add requestId requestWave =>
    if preprocFails then e
    else { e with inputQueue := e.inputQueue ++ [.add requestId requestWave] }
  | .abort requestIds =>
    { e with
      inputQueue := e.inputQueue ++ [.abort requestIds]
      abortsQueue := e.abortsQueue ++ [requestIds] }
  | .startDPWave m => { e with inputQueue := e.inputQueue ++ [.startDPWave m] }

/-- `_process_engine_step`: aborts that came in during the model's execution are processed before
its output, which finishes the requests `finished`. Without a request nothing is done. -/
def processEngineStep (e : DPEngineCoreProc) (finished : List String) : DPEngineCoreProc :=
  if e.hasUnfinishedRequests then
    let e := { e.abortRequests e.abortsQueue.flatten with abortsQueue := [] }
    e.abortRequests finished
  else e

/-- The part of `run_busy_loop` behind the input queue, up to the all-reduce. Of 32 steps only the
last one waits for the other engines. -/
def busyLoopStep (e : DPEngineCoreProc) (executed : Bool) (finished : List String) :
    DPEngineCoreProc :=
  let e := e.processEngineStep finished
  let localUnfinishedReqs := e.hasUnfinishedRequests
  if executed = false ∧ localUnfinishedReqs = false ∧ e.enginesRunning = false then e
  else
    let e := { e with stepCounter := e.stepCounter + 1 }
    if e.stepCounter % 32 ≠ 0 then { e with enginesRunning := true }
    else { e with allReduce := some localUnfinishedReqs }

/-- The result of the all-reduce arrives: without unfinished requests anywhere the loop pauses,
and rank 0 reports the completed wave. -/
def afterAllReduce (e : DPEngineCoreProc) (dpRank : Nat) (unfinished : Bool) :
    DPEngineCoreProc × List EngineCoreOutputs :=
  if unfinished then ({ e with enginesRunning := true, allReduce := none }, [])
  else
    ({ e with
        enginesRunning := false, allReduce := none
        currentWave := e.currentWave + 1, stepCounter := 0 },
      if dpRank = 0 then [.waveComplete e.currentWave] else [])

end DPEngineCoreProc

/-! ## The deployment -/

/-- All parties and the messages between them. The inputs of an engine come from a front-end's
socket or, with source `none`, from the coordinator's. -/
structure Deployment (numClients numEngines : Nat) where
  clients : Fin numClients → DPAsyncMPClient
  coordinator : DPCoordinatorProc
  engines : Fin numEngines → DPEngineCoreProc
  inputs : Channels (Option (Fin numClients) × Fin numEngines) EngineCoreRequest
  firstReqs : Channels (Fin numClients) FirstReq
  outputs : Channels (Fin numEngines) EngineCoreOutputs
  published : Channels (Fin numClients) WaveState

/-- What can happen next. -/
inductive Op (numClients numEngines : Nat) where
  /-- a client adds a request for the engine its load balancing chose -/
  | addRequest (client : Fin numClients) (engine : Fin numEngines) (requestId : String)
  /-- a client aborts requests it sent to an engine -/
  | abortRequests (client : Fin numClients) (engine : Fin numEngines) (requestIds : List String)
  /-- one pass of a client's stats update task, that finds `arrived` stats events -/
  | statsUpdate (client : Fin numClients) (socketReady firstReqReady : Bool) (arrived : Nat)
  /-- one pass of the coordinator's loop, with the senders of the messages it finds -/
  | coordinate (front : Option (Fin numClients)) (back : Option (Fin numEngines))
  /-- an engine's input thread reads a socket -/
  | receive (engine : Fin numEngines) (source : Option (Fin numClients)) (preprocFails : Bool)
  /-- an engine's busy loop handles the oldest message of its input queue -/
  | handleInput (engine : Fin numEngines)
  /-- an idle engine clears its queue of aborts -/
  | clearAborts (engine : Fin numEngines)
  /-- an engine's busy loop steps the engine core -/
  | busyLoopStep (engine : Fin numEngines) (executed : Bool) (finished : List String)
  /-- the all-reduce that all the engines wait in completes -/
  | allReduce

namespace Deployment

variable {numClients numEngines : Nat}

def init (numClients numEngines : Nat) : Deployment numClients numEngines where
  clients := fun _ => .init
  coordinator := .init
  engines := fun _ => .init
  inputs := Channels.empty
  firstReqs := Channels.empty
  outputs := Channels.empty
  published := Channels.empty

variable (s : Deployment numClients numEngines)

def setClient (c : Fin numClients) (client : DPAsyncMPClient) :
    Deployment numClients numEngines :=
  { s with clients := Function.update s.clients c client }

def setEngine (k : Fin numEngines) (engine : DPEngineCoreProc) :
    Deployment numClients numEngines :=
  { s with engines := Function.update s.engines k engine }

/-- `_send_start_wave` -/
def sendStartWave (m : Option StartDPWave) : Deployment numClients numEngines :=
  { s with
    inputs := s.inputs.broadcast (fun i => i.1.isNone)
      (m.toList.map EngineCoreRequest.startDPWave) }

/-- The coordinator publishes its wave state to all front-ends. -/
def publish : Deployment numClients numEngines :=
  { s with published := s.published.broadcast (fun _ => true) [s.coordinator.waveState] }

def addRequest (c : Fin numClients) (k : Fin numEngines) (requestId : String) :
    Deployment numClients numEngines :=
  let (client, request) := (s.clients c).addRequestAsync requestId ⟨k⟩
  { s.setClient c client with inputs := s.inputs.send (some c, k) [request] }

def abortRequests (c : Fin numClients) (k : Fin numEngines) (requestIds : List String) :
    Deployment numClients numEngines :=
  { s with inputs := s.inputs.send (some c, k) (DPAsyncMPClient.abortRequestsAsync requestIds) }

/-- The first half of a pass of the stats update task. -/
def sendFirstReq (c : Fin numClients) : Option (Deployment numClients numEngines) :=
  (s.clients c).sendFirstReq.map fun (client, m) =>
    { s.setClient c client with firstReqs := s.firstReqs.send c [m] }

/-- The second half of a pass of the stats update task drains the events that have arrived. -/
def drainStats (c : Fin numClients) (arrived : Nat) : Option (Deployment numClients numEngines) :=
  if arrived ≤ (s.published c).length then
    some { s.setClient c ((s.clients c).updateState ((s.published c).take arrived)) with
      published := Function.update s.published c ((s.published c).drop arrived) }
  else none

/-- A poll reports a socket only when it has a message, and reports at least one socket. -/
def statsUpdate (c : Fin numClients) (socketReady firstReqReady : Bool) (arrived : Nat) :
    Option (Deployment numClients numEngines) :=
  if (socketReady = true → 0 < arrived) ∧ (firstReqReady = true → (s.clients c).firstReqSocket ≠ [])
      ∧ (socketReady || firstReqReady) = true then
    if (s.clients c).handlesFirstReq socketReady firstReqReady then
      (s.sendFirstReq c).bind fun s => s.drainStats c arrived
    else s.drainStats c arrived
  else none

/-- The coordinator receives a front-end's message; the second value is `wave_state_changed`. -/
def receiveFront (c : Fin numClients) : Option (Deployment numClients numEngines × Bool) :=
  (s.firstReqs.receive c).map fun (m, firstReqs) =>
    let (coordinator, start) := s.coordinator.onFirstReq m
    ({ s with coordinator, firstReqs }.sendStartWave start, start.isSome)

/-- The coordinator receives an engine's message. -/
def receiveBack (k : Fin numEngines) : Option (Deployment numClients numEngines × Bool) :=
  (s.outputs.receive k).map fun (m, outputs) =>
    let (coordinator, start, changed) := s.coordinator.onOutputs k m
    ({ s with coordinator, outputs }.sendStartWave start, changed)

/-- A poll without events is a timeout: the coordinator publishes its state. -/
def coordinate (front : Option (Fin numClients)) (back : Option (Fin numEngines)) :
    Option (Deployment numClients numEngines) := do
  if front.isNone && back.isNone then return s.publish
  let (s, frontChanged) ← front.elim (some (s, false)) s.receiveFront
  let (s, backChanged) ← back.elim (some (s, false)) s.receiveBack
  return if frontChanged || backChanged then s.publish else s

def receive (k : Fin numEngines) (source : Option (Fin numClients)) (preprocFails : Bool) :
    Option (Deployment numClients numEngines) :=
  (s.inputs.receive (source, k)).map fun (m, inputs) =>
    { s.setEngine k ((s.engines k).pushInput preprocFails m) with inputs }

/-- The busy loop of an engine that waits in the all-reduce handles nothing. -/
def handleInput (k : Fin numEngines) : Option (Deployment numClients numEngines) :=
  match (s.engines k).allReduce, (s.engines k).inputQueue with
  | none, m :: rest =>
    let (engine, outputs) := ((s.engines k).setInputQueue rest).handleClientRequest k m
    some { s.setEngine k engine with outputs := s.outputs.send k outputs }
  | _, _ => none

def clearAborts (k : Fin numEngines) : Option (Deployment numClients numEngines) :=
  if (s.engines k).enginesRunning = false ∧ (s.engines k).unfinished = []
      ∧ (s.engines k).inputQueue = [] then
    some (s.setEngine k { s.engines k with abortsQueue := [] })
  else none

/-- Only unfinished requests have tokens to execute. -/
def busyLoopStep (k : Fin numEngines) (executed : Bool) (finished : List String) :
    Option (Deployment numClients numEngines) :=
  if (s.engines k).allReduce = none
      ∧ (executed = true → (s.engines k).hasUnfinishedRequests = true) then
    some (s.setEngine k ((s.engines k).busyLoopStep executed finished))
  else none

/-- `has_unfinished_dp`: the joint step of all engines. -/
def allReduce : Option (Deployment numClients numEngines) :=
  if ∀ k, (s.engines k).allReduce ≠ none then
    let unfinished := decide (∃ k, (s.engines k).allReduce = some true)
    some { s with
      engines := fun k => ((s.engines k).afterAllReduce k unfinished).1
      outputs := fun k => s.outputs k ++ ((s.engines k).afterAllReduce k unfinished).2 }
  else none

/-- One step of the deployment. -/
def step : Op numClients numEngines → Option (Deployment numClients numEngines)
  | .addRequest c k requestId => some (s.addRequest c k requestId)
  | .abortRequests c k requestIds => some (s.abortRequests c k requestIds)
  | .statsUpdate c socketReady firstReqReady arrived =>
    s.statsUpdate c socketReady firstReqReady arrived
  | .coordinate front back => s.coordinate front back
  | .receive k source preprocFails => s.receive k source preprocFails
  | .handleInput k => s.handleInput k
  | .clearAborts k => s.clearAborts k
  | .busyLoopStep k executed finished => s.busyLoopStep k executed finished
  | .allReduce => s.allReduce

end Deployment

end Yuan.Engine
