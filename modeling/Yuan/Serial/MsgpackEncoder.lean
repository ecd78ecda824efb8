import Yuan.Serial.Objects

/-!
# Encoding

The hooks turn arrays, tensors and multi-modal items into what msgpack has. An array that is small, or
has no dimensions, goes into the message itself; the buffer of a larger one is stashed beside it, and
the message has its index.
-/

namespace Yuan.Serial

open Yuan.Msgpack

def CUSTOM_TYPE_PICKLE : Nat := 1
def CUSTOM_TYPE_CLOUDPICKLE : Nat := 2
def CUSTOM_TYPE_RAW_VIEW : Nat := 3

/-- The hooks, with `aux_buffers` as their state. -/
abbrev Encoder : Type → Type := StateT (List Bytes) (Except SerialError)

abbrev Native.str (value : String) : Native := .scalar (.str value)
abbrev Native.int (value : Int) : Native := .scalar (.int value)
abbrev Native.none : Native := .scalar .none

/-- `data = len(self.aux_buffers)`, before the buffer is appended. -/
def stash (arrData : Bytes) : Encoder Native := fun auxBuffers =>
  .ok (Native.int auxBuffers.length, auxBuffers ++ [arrData])

section

variable {D T : Type} [NumpyDType D] [TorchDType T]

/-- `obj.data`, for an array that is contiguous. -/
def NDArray.buffer (obj : NDArray D) : Except SerialError Bytes :=
  if NumpyDType.exportsBuffer obj.dtype then .ok obj.data
  else .error (.python (.valueError "cannot include dtype in a buffer"))

/-- `arr_data`: an array that is not contiguous is copied first. -/
def NDArray.arrData (obj : NDArray D) : Except SerialError Bytes :=
  if obj.contiguous then obj.buffer else .ok obj.data

/-- `obj.nbytes`. -/
def NDArray.nbytes (obj : NDArray D) : Nat := obj.data.length

def Tensor.nbytes (obj : Tensor T) : Nat := obj.data.length

/-- The array goes into the message itself. -/
def NDArray.Inline (sizeThreshold : Int) (obj : NDArray D) : Prop :=
  obj.shape = [] ∨ (obj.nbytes : Int) < sizeThreshold

def Tensor.Inline (sizeThreshold : Int) (obj : Tensor T) : Prop := (obj.nbytes : Int) < sizeThreshold

instance (sizeThreshold : Int) (obj : NDArray D) : Decidable (obj.Inline sizeThreshold) := by
  unfold NDArray.Inline
  infer_instance

instance (sizeThreshold : Int) (obj : Tensor T) : Decidable (obj.Inline sizeThreshold) := by
  unfold Tensor.Inline
  infer_instance

def encodeShape (shape : List Nat) : Native := .array (shape.map fun (n : Nat) => Native.int n)

/-- The data of an array, in the message itself or beside it. -/
def placeData (inline : Bool) (arrData : Bytes) : Encoder Native :=
  if inline then pure (.ext CUSTOM_TYPE_RAW_VIEW arrData) else stash arrData

/-- `_encode_ndarray`. -/
def encodeNdarray (sizeThreshold : Int) (obj : NDArray D) : Encoder Native := do
  let arrData ← liftM obj.arrData
  let data ← placeData (obj.Inline sizeThreshold) arrData
  return .array [Native.str (NumpyDType.str obj.dtype), encodeShape obj.shape, data]

/-- `_encode_tensor`. -/
def encodeTensor (sizeThreshold : Int) (obj : Tensor T) : Encoder Native := do
  let data ← placeData (obj.Inline sizeThreshold) obj.data
  return .array [Native.str (TorchDType.name obj.dtype), encodeShape obj.shape, data]

def encodeBound : Option Int → Native
  | none => Native.none
  | some v => Native.int v

/-- What `enc_hook` makes of a slice. -/
def encodeSlice (obj : Slice) : Native :=
  .array [encodeBound obj.start, encodeBound obj.stop, encodeBound obj.step]

mutual

/-- `_encode_nested_tensors`. -/
def encodeNestedTensors (sizeThreshold : Int) : NestedTensors T → Encoder Native
  | .tensor nt => encodeTensor sizeThreshold nt
  | .bool value => pure (.scalar (.bool value))
  | .int value => pure (.scalar (.int value))
  | .float bits => pure (.scalar (.float bits))
  | .list nt => do return .array (← encodeNestedTensorsList sizeThreshold nt)

def encodeNestedTensorsList (sizeThreshold : Int) : List (NestedTensors T) → Encoder (List Native)
  | [] => pure []
  | x :: nt => do
    let elem ← encodeNestedTensors sizeThreshold x
    let elems ← encodeNestedTensorsList sizeThreshold nt
    return elem :: elems

end

mutual

def encodeNestedSlices : NestedSlices → Native
  | .slice obj => encodeSlice obj
  | .list elems => .array (encodeNestedSlicesList elems)

def encodeNestedSlicesList : List NestedSlices → List Native
  | [] => []
  | elem :: elems => encodeNestedSlices elem :: encodeNestedSlicesList elems

end

/-- `_encode_mm_field`: the name of the factory, and the fields of the dataclass. -/
def encodeMmField : MultiModalField → Native
  | .flat keepOnCpu slices dim => .array [Native.str "flat", .map [
      (.str "keep_on_cpu", .scalar (.bool keepOnCpu)),
      (.str "slices", encodeNestedSlices slices),
      (.str "dim", Native.int dim)]]
  | .shared keepOnCpu batchSize => .array [Native.str "shared", .map [
      (.str "keep_on_cpu", .scalar (.bool keepOnCpu)),
      (.str "batch_size", Native.int batchSize)]]
  | .batched keepOnCpu => .array [Native.str "batched", .map [
      (.str "keep_on_cpu", .scalar (.bool keepOnCpu))]]

/-- `elem.data`, which may be absent. -/
def encodeData (sizeThreshold : Int) : Option (NestedTensors T) → Encoder Native
  | none => pure Native.none
  | some nt => encodeNestedTensors sizeThreshold nt

/-- `_encode_mm_field_elem`. -/
def encodeMmFieldElem (sizeThreshold : Int) (elem : MultiModalFieldElem T) : Encoder Native := do
  let data ← encodeData sizeThreshold elem.data
  return .map [(.str "data", data), (.str "field", encodeMmField elem.field)]

/-- The dictionary of the entries, encoded one by one. -/
def encodeEntries {V : Type} (encode : V → Encoder Native) (d : Dict String V) : Encoder Native := do
  let entries ← d.entries.mapM fun entry => do return (Scalar.str entry.1, ← encode entry.2)
  return .map entries

/-- `_encode_mm_item`. -/
def encodeMmItem (sizeThreshold : Int) (item : MultiModalKwargsItem T) : Encoder Native :=
  encodeEntries (encodeMmFieldElem sizeThreshold) item

/-- `_encode_mm_items`. -/
def encodeMmItems (sizeThreshold : Int) (items : MultiModalKwargsItems T) : Encoder Native :=
  encodeEntries (fun itemlist => do return .array (← itemlist.mapM (encodeMmItem sizeThreshold))) items

/-- An array that only pickle can carry. -/
def NDArray.NeedsPickle (obj : NDArray D) : Prop :=
  NumpyDType.kind obj.dtype = 'O' ∨ NumpyDType.kind obj.dtype = 'V'

instance (obj : NDArray D) : Decidable obj.NeedsPickle := by
  unfold NDArray.NeedsPickle
  infer_instance

def notSerializable (typeName : String) : SerialError :=
  .python (.typeError ("Object of type " ++ typeName ++ " is not serializable" ++
    "Set VLLM_ALLOW_INSECURE_SERIALIZATION=1 to allow fallback to pickle-based serialization."))

variable [Pickle D T]

variable (T) in
/-- `enc_hook` on an array. -/
def encodeArray (allowInsecure : Bool) (sizeThreshold : Int) (obj : NDArray D) : Encoder Native :=
  if obj.NeedsPickle then
    if allowInsecure then pure (.ext CUSTOM_TYPE_PICKLE (Pickle.dumps T obj))
    else throw (notSerializable "<class 'numpy.ndarray'>")
  else encodeNdarray sizeThreshold obj

mutual

/-- What msgspec and `enc_hook` make of a value, part by part. As msgspec documents it, the encoder walks through
lists and dictionaries in order and calls `enc_hook` on every object of a type that it does not know. -/
def encodeValue (allowInsecure : Bool) (sizeThreshold : Int) : Value D T → Encoder Native
  | .scalar value => pure (.scalar value)
  | .memoryview data => pure (.scalar (.bytes data))
  | .ndarray obj => encodeArray T allowInsecure sizeThreshold obj
  | .tensor obj => encodeTensor sizeThreshold obj
  | .slice obj => pure (encodeSlice obj)
  | .item item => encodeMmItem sizeThreshold item
  | .items items => encodeMmItems sizeThreshold items
  | .list elems => do return .array (← encodeValues allowInsecure sizeThreshold elems)
  | .dict entries => do return .map (← encodeDictEntries allowInsecure sizeThreshold entries)

def encodeValues (allowInsecure : Bool) (sizeThreshold : Int) : List (Value D T) → Encoder (List Native)
  | [] => pure []
  | elem :: elems => do
    let native ← encodeValue allowInsecure sizeThreshold elem
    let natives ← encodeValues allowInsecure sizeThreshold elems
    return native :: natives

def encodeDictEntries (allowInsecure : Bool) (sizeThreshold : Int) :
    List (Scalar × Value D T) → Encoder (List (Scalar × Native))
  | [] => pure []
  | (key, value) :: entries => do
    let native ← encodeValue allowInsecure sizeThreshold value
    let natives ← encodeDictEntries allowInsecure sizeThreshold entries
    return (key, native) :: natives

end

/-- `(t.__module__, t.__qualname__)`. -/
def typeNames : PyClass → String × String
  | .builtin .bool => ("builtins", "bool")
  | .builtin .int => ("builtins", "int")
  | .builtin .float => ("builtins", "float")
  | .builtin .str => ("builtins", "str")
  | .builtin .bytes => ("builtins", "bytes")
  | .ndarray => ("numpy", "ndarray")
  | .tensor => ("torch", "Tensor")
  | .slice => ("builtins", "slice")
  | .item => ("vllm.multimodal.inputs", "MultiModalKwargsItem")
  | .items => ("vllm.multimodal.inputs", "MultiModalKwargsItems")

def encodeNames (names : String × String) : Native := .array [Native.str names.1, Native.str names.2]

/-- `_typestr`. -/
def encodeClass (cls : PyClass) : Native := encodeNames (typeNames cls)

mutual

/-- `_encode_type_info_recursive`. -/
def encodeTypeInfo : Value D T → Native
  | .scalar obj =>
    match builtinOf obj with
    | none => Native.none
    | some builtin => encodeClass (.builtin builtin)
  | .memoryview _ => encodeNames ("builtins", "memoryview")
  | .ndarray _ => encodeClass .ndarray
  | .tensor _ => encodeClass .tensor
  | .slice _ => encodeClass .slice
  | .item _ => encodeClass .item
  | .items _ => encodeClass .items
  | .list obj => .array (encodeTypeInfos obj)
  | .dict obj => .map (encodeTypeInfoEntries obj)

def encodeTypeInfos : List (Value D T) → List Native
  | [] => []
  | elem :: elems => encodeTypeInfo elem :: encodeTypeInfos elems

def encodeTypeInfoEntries : List (Scalar × Value D T) → List (Scalar × Native)
  | [] => []
  | (key, value) :: entries => (key, encodeTypeInfo value) :: encodeTypeInfoEntries entries

end

/-- What msgspec is given for a message. -/
def encodeMessage (allowInsecure : Bool) (sizeThreshold : Int) : Message D T → Encoder Native
  | .value obj => encodeValue allowInsecure sizeThreshold obj
  | .utilityResult result => do
    let native ← encodeValue allowInsecure sizeThreshold result
    return .array [if allowInsecure then encodeTypeInfo result else Native.none, native]

variable [Msgspec]

/-- `MsgpackEncoder.encode`: the packed message in front of the stashed buffers. -/
def encode (allowInsecure : Bool) (sizeThreshold : Int) (obj : Message D T) :
    Except SerialError (List Bytes) := do
  let (native, bufs) ← (encodeMessage allowInsecure sizeThreshold obj).run [[]]
  return bufs.set 0 (← Msgspec.encode native)

end

end Yuan.Serial
