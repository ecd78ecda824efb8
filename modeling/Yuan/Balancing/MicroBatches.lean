import Yuan.Balancing.KarmarkarKarp

/-!
# Dynamic micro-batches

A batch is split into micro-batches by its total number of tokens. The returned index lists map each micro-batch back
to the rows of the batch.
-/

namespace Yuan.Balancing

/-- One row of a `TensorDict`, with `attention_mask`. -/
structure Row (α : Type) where
  attentionMask : List Bool
  tensors : α
  deriving DecidableEq

/-- A `TensorDict`, whose attention masks have one width. -/
structure TensorBatch (α : Type) where
  rows : List (Row α)
  width : Nat
  width_eq : ∀ row ∈ rows, row.attentionMask.length = width

/-- `attention_mask.sum(dim=1)`. -/
def seqLenEffective {α : Type} (rows : List (Row α)) : List Nat := rows.map fun row => row.attentionMask.count true

/-- `ceildiv(a, b)`, which divides by `-b`. -/
def ceildiv (a b : Nat) : Except PyError Nat :=
  if b = 0 then .error (.zeroDivisionError "integer division or modulo by zero") else .ok ((a + b - 1) / b)

def roundupDivisible (a b : Nat) : Except PyError Nat :=
  if b = 0 then .error (.zeroDivisionError "integer division or modulo by zero") else .ok ((a + b - 1) / b * b)

/-- The optional arguments of `rearrange_micro_batches`. `otherRanks` is there in a distributed run: the largest number
of micro-batches among the other ranks of the group. -/
structure MicroBatchOptions where
  otherRanks : Option Nat := none
  numBatchesDividedBy : Option Nat := none
  sameMicroNumInDp : Bool := true
  minNumMicroBatch : Option Nat := none
  useDynamicBszBalance : Bool := true

/-- `num_micro_batches`. -/
def numMicroBatches (o : MicroBatchOptions) (lens : List Nat) (maxTokenLen : Nat) : Except PyError Nat := do
  let num := min lens.length (← ceildiv lens.sum maxTokenLen)
  let num := max (o.minNumMicroBatch.getD num) num
  let num := if o.sameMicroNumInDp then max (o.otherRanks.getD num) num else num
  match o.numBatchesDividedBy with
  | some b => roundupDivisible num b
  | none => return num

/-- What the micro-batches are sorted by: the sum of the squared lengths, then the first index. -/
def workload (lens partition : List Nat) : Nat × Nat :=
  ((partition.map fun idx => lens.getD idx 0 ^ 2).sum, partition.min?.getD 0)

/-- `micro_bsz_idx.sort(key=.., reverse=True)`. -/
def sortByWorkload (lens : List Nat) (microBszIdx : List (List Nat)) : List (List Nat) :=
  microBszIdx.insertionSort fun p q => toLex (workload lens q) ≤ toLex (workload lens p)

/-- The index lists in the order of the micro-batches. -/
def reorder (o : MicroBatchOptions) (lens : List Nat) (microBszIdx : List (List Nat)) : List (List Nat) :=
  if o.useDynamicBszBalance then sortByWorkload lens microBszIdx else microBszIdx

/-- `torch.cat` of the slices `batch[idx : idx + 1]`. -/
def catRows {α : Type} (rows : List α) (partition : List Nat) : Except PyError (List α) :=
  if partition = [] then .error (.runtimeError "torch.cat(): expected a non-empty list of Tensors")
  else .ok (partition.flatMap fun idx => (rows.drop idx).take 1)

/-- `rearrange_micro_batches`. -/
def rearrangeMicroBatches {α : Type} (batch : TensorBatch α) (maxTokenLen : Nat) (o : MicroBatchOptions) :
    Except PyError (List (List (Row α)) × List (List Nat)) := do
  pyAssert (batch.width ≤ maxTokenLen)
    (s!"max_token_len must be greater than the sequence length. Got max_token_len={maxTokenLen} " ++
      s!"and max_seq_len={batch.width}")
  let lens := seqLenEffective batch.rows
  let num ← numMicroBatches o lens maxTokenLen
  pyAssert (num ≤ lens.length) ""
  let microBszIdx := reorder o lens (← getSeqlenBalancedPartitions lens num false)
  let microBatches ← microBszIdx.mapM (catRows batch.rows)
  return (microBatches, microBszIdx)

/-! ## Batches with non-tensors -/

/-- `DataProto`. The arrays of `non_tensor_batch` have as many entries as the batch has rows. -/
structure DataProto (α β : Type) where
  batch : TensorBatch α
  nonTensorBatch : List (String × List β)
  consistent : ∀ kv ∈ nonTensorBatch, kv.2.length = batch.rows.length

namespace DataProto

variable {α β : Type}

/-- Row `i` with its entries of the arrays. -/
def rowAt (data : DataProto α β) (row : Row α) (i : Nat) : Row α × List (String × β) :=
  (row, data.nonTensorBatch.filterMap fun kv => kv.2[i]?.map fun v => (kv.1, v))

/-- The rows that a row-wise function is applied to. -/
def rows (data : DataProto α β) : List (Row α × List (String × β)) :=
  data.batch.rows.zipIdx.map fun p => data.rowAt p.1 p.2

/-- `DataProto.from_dict`, with the checks of `check_consistency`. -/
def fromDict (batch : TensorBatch α) (nonTensors : List (String × List β)) : Except PyError (DataProto α β) :=
  if h : ∀ kv ∈ nonTensors, kv.2.length = batch.rows.length then .ok ⟨batch, nonTensors, h⟩
  else .error (.assertionError "key length is not equal to batch size")

end DataProto

/-- `value[i]`. -/
def gatherAt {β : Type} (value : List β) (i : Nat) : Except PyError β :=
  match value[i]? with
  | some v => .ok v
  | none => .error (.indexError s!"index {i} is out of bounds for dimension 0 with size {value.length}")

/-- `value[idx]` for an array and a list of indices. -/
def gather {β : Type} (value : List β) (idx : List Nat) : Except PyError (List β) := idx.mapM (gatherAt value)

/-- One of the micro-batches of `prepare_dynamic_batch`. -/
def microBatch {α β : Type} (data : DataProto α β) (rows : List (Row α)) (batchIdx : List Nat) :
    Except PyError (DataProto α β) := do
  let nonTensors ← data.nonTensorBatch.mapM fun kv => do return (kv.1, ← gather kv.2 batchIdx)
  if h : ∀ row ∈ rows, row.attentionMask.length = data.batch.width then
    DataProto.fromDict ⟨rows, data.batch.width, h⟩ nonTensors
  -- the rows are rows of the batch
  else throw (.runtimeError "Sizes of tensors must match")

/-- `prepare_dynamic_batch`. -/
def prepareDynamicBatch {α β : Type} (data : DataProto α β) (maxTokenLen : Nat) (otherRanks : Option Nat) :
    Except PyError (List (DataProto α β) × List (List Nat)) := do
  let (batch, batchIdxList) ← rearrangeMicroBatches data.batch maxTokenLen { otherRanks := otherRanks }
  let microBatches ← (batch.zip batchIdxList).mapM fun p => microBatch data p.1 p.2
  return (microBatches, batchIdxList)

/-- `get_reverse_idx`. -/
def getReverseIdx (idxMap : List Nat) : Except PyError (List Nat) :=
  idxMap.zipIdx.foldlM (fun reverseIdxMap p =>
    if p.1 < reverseIdxMap.length then .ok (reverseIdxMap.set p.1 p.2)
    else .error (.indexError "list assignment index out of range")) idxMap

/-- `restore_dynamic_batch`, on the rows of the tensor. -/
def restoreDynamicBatch {γ : Type} (data : List γ) (batchIdxList : List (List Nat)) : Except PyError (List γ) := do
  gather data (← getReverseIdx batchIdxList.flatten)

end Yuan.Balancing
