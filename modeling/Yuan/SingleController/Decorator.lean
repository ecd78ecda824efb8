import Mathlib.Data.List.Range
import Yuan.Lib.Py

/-!
# Dispatching a batch to the ranks and collecting it

A registered method gets a batch. The dispatch function chunks it and gives every rank its chunk, and the collect
function concatenates the outputs of some of the ranks, in the order of the ranks.
-/

namespace Yuan.SingleController

/-- Tensor, context, data and pipeline parallel sizes. -/
structure ParallelSizes where
  tpSize : Nat
  cpSize : Nat
  dpSize : Nat
  ppSize : Nat
  tp_pos : 0 < tpSize
  cp_pos : 0 < cpSize
  dp_pos : 0 < dpSize
  pp_pos : 0 < ppSize

/-- `DistRankInfo`. -/
structure DistRankInfo where
  tpRank : Nat
  cpRank : Nat
  dpRank : Nat
  ppRank : Nat

namespace ParallelSizes

variable (g : ParallelSizes)

def worldSize : Nat := g.tpSize * (g.cpSize * (g.dpSize * g.ppSize))

/-- `get_megatron_rank_info`, for the order tp-cp-dp-pp. -/
def rankInfo (rank : Nat) : DistRankInfo where
  tpRank := rank % g.tpSize
  cpRank := rank / g.tpSize % g.cpSize
  dpRank := rank / g.tpSize / g.cpSize % g.dpSize
  ppRank := rank / g.tpSize / g.cpSize / g.dpSize

end ParallelSizes

section

variable {α β : Type}

/-- `DataProto.chunk`, on the rows. -/
def chunk (rows : List α) (chunks : Nat) : Except PyError (List (List α)) := do
  pyAssert (rows.length % chunks = 0)
    s!"only support equal chunk. Got size of DataProto {rows.length} and chunk {chunks}."
  let size := rows.length / chunks
  return (List.range chunks).map fun i => (rows.drop (i * size)).take size

/-- `_concat_data_proto_or_future`, on the rows. -/
def concatDataProto (output : List (List β)) : Except PyError (List β) :=
  match output with
  | [] => .error (.indexError "list index out of range")
  | _ => .ok output.flatten

/-- `obj_list[i]`. -/
def item (objList : List α) (i : Nat) : Except PyError α :=
  match objList[i]? with
  | some a => .ok a
  | none => .error (.indexError "list index out of range")

variable (g : ParallelSizes)

/-! ## Megatron compute -/

/-- `dispatch_megatron_compute`: what each rank gets. -/
def dispatchMegatronCompute (objList : List α) : Except PyError (List α) := do
  pyAssert (objList.length = g.dpSize) ""
  (List.range g.worldSize).mapM fun i => item objList (g.rankInfo i).dpRank

def collectMegatronCompute (output : List β) : Except PyError (List β) :=
  ((List.range g.worldSize).filter fun globalRank =>
    let localRankInfo := g.rankInfo globalRank
    localRankInfo.tpRank = 0 ∧ localRankInfo.ppRank = g.ppSize - 1 ∧ localRankInfo.cpRank = 0).mapM (item output)

def dispatchMegatronComputeDataProto (batch : List α) : Except PyError (List (List α)) := do
  dispatchMegatronCompute g (← chunk batch g.dpSize)

def collectMegatronComputeDataProto (output : List (List β)) : Except PyError (List β) := do
  concatDataProto (← collectMegatronCompute g output)

/-! ## Pipeline ranks as data ranks -/

def dispatchMegatronPpAsDp (objList : List α) : Except PyError (List α) := do
  let ppDpCpSize := g.ppSize * g.dpSize * g.cpSize
  pyAssert (objList.length = ppDpCpSize) ""
  (List.range g.worldSize).mapM fun i =>
    let info := g.rankInfo i
    let dpCpRank := info.cpRank * g.dpSize + info.dpRank
    let argRank := dpCpRank * g.ppSize + info.ppRank
    item objList argRank

def collectMegatronPpAsDp (output : List β) : Except PyError (List β) :=
  ((List.range g.worldSize).filter fun globalRank => (g.rankInfo globalRank).tpRank = 0).mapM (item output)

def dispatchMegatronPpAsDpDataProto (batch : List α) : Except PyError (List (List α)) := do
  let ppDpCpSize := g.dpSize * g.ppSize * g.cpSize
  dispatchMegatronPpAsDp g (← chunk batch ppDpCpSize)

def collectMegatronPpAsDpDataProto (output : List (List β)) : Except PyError (List β) := do
  concatDataProto (← collectMegatronPpAsDp g output)

/-! ## Data ranks only -/

/-- `dispatch_dp_compute_data_proto`, for a batch that needs no padding. -/
def dispatchDpComputeDataProto (batch : List α) : Except PyError (List (List α)) := chunk batch g.worldSize

def collectDpCompute (output : List β) : Except PyError (List β) := do
  pyAssert (output.length = g.worldSize) ""
  return output

def collectDpComputeDataProto (output : List (List β)) : Except PyError (List β) := do
  concatDataProto (← collectDpCompute g output)

end

/-! ## Registered methods -/

inductive Dispatch where
  | megatronComputeProto
  | megatronPpAsDpProto
  | dpComputeProto
  deriving DecidableEq

namespace Dispatch

/-- `dispatch_fn`. -/
def dispatchFn {α : Type} (g : ParallelSizes) : Dispatch → List α → Except PyError (List (List α))
  | megatronComputeProto => dispatchMegatronComputeDataProto g
  | megatronPpAsDpProto => dispatchMegatronPpAsDpDataProto g
  | dpComputeProto => dispatchDpComputeDataProto g

/-- `collect_fn`. -/
def collectFn {β : Type} (g : ParallelSizes) : Dispatch → List (List β) → Except PyError (List β)
  | megatronComputeProto => collectMegatronComputeDataProto g
  | megatronPpAsDpProto => collectMegatronPpAsDpDataProto g
  | dpComputeProto => collectDpComputeDataProto g

/-- The number of chunks that a batch is divided into. -/
def chunks (g : ParallelSizes) : Dispatch → Nat
  | megatronComputeProto => g.dpSize
  | megatronPpAsDpProto => g.dpSize * g.ppSize * g.cpSize
  | dpComputeProto => g.worldSize

/-- A call of a registered method: dispatch, the workers on their chunks, collect. -/
def call {α β : Type} (g : ParallelSizes) (mode : Dispatch) (worker : List α → List β) (batch : List α) :
    Except PyError (List β) := do
  let args ← mode.dispatchFn g batch
  mode.collectFn g (args.map worker)

end Dispatch

end Yuan.SingleController
