import Yuan.Serial.MsgpackEncoder

/-!
# Decoding

msgspec unpacks the message into native values, and the hooks turn these into values of the class that
is asked for. A tensor in a nested list is told apart by its first element, a string; a slice, by a first
element that is not a list; a class in a type description, by a pair of which the first is a string.
-/

namespace Yuan.Serial

open Yuan.Msgpack

/-- `type(obj)`. -/
def typeName : Native → String
  | .scalar .none => "<class 'NoneType'>"
  | .scalar (.bool _) => "<class 'bool'>"
  | .scalar (.int _) => "<class 'int'>"
  | .scalar (.float _) => "<class 'float'>"
  | .scalar (.str _) => "<class 'str'>"
  | .scalar (.bytes _) => "<class 'bytes'>"
  | .ext _ _ => "<class 'memoryview'>"
  | .array _ => "<class 'list'>"
  | .map _ => "<class 'dict'>"

/-- `a, b, c = arr`, for a list. -/
def unpackThree : Native → Except SerialError (Native × Native × Native)
  | .array [a, b, c] => .ok (a, b, c)
  | .array (_ :: _ :: _ :: _) => .error (.python (.valueError "too many values to unpack (expected 3)"))
  | .array _ => .error (.python (.valueError "not enough values to unpack (expected 3)"))
  | obj => .error (.python (.typeError ("cannot unpack non-iterable " ++ typeName obj)))

/-- `a, b = obj`, for a list. -/
def unpackTwo : Native → Except SerialError (Native × Native)
  | .array [a, b] => .ok (a, b)
  | .array (_ :: _ :: _) => .error (.python (.valueError "too many values to unpack (expected 2)"))
  | .array _ => .error (.python (.valueError "not enough values to unpack (expected 2)"))
  | obj => .error (.python (.typeError ("cannot unpack non-iterable " ++ typeName obj)))

/-- `bufs[i]`. -/
def bufferAt (bufs : List Bytes) (i : Int) : Except SerialError Bytes :=
  match bufs[(if i < 0 then bufs.length + i else i).toNat]? with
  | some buffer => if -bufs.length ≤ i then .ok buffer else .error (.python (.indexError "list index out of range"))
  | none => .error (.python (.indexError "list index out of range"))

/-- `self.aux_buffers[data] if isinstance(data, int) else data`, as a buffer. -/
def bufferOf (auxBuffers : List Bytes) : Native → Except SerialError Bytes
  | .scalar (.int i) => bufferAt auxBuffers i
  | .scalar (.bool i) => bufferAt auxBuffers (if i then 1 else 0)
  | .scalar (.bytes data) => .ok data
  | .ext code data =>
    if code = CUSTOM_TYPE_RAW_VIEW then .ok data
    else .error (.python (.typeError "a bytes-like object is required"))
  | _ => .error (.python (.typeError "a bytes-like object is required"))

/-- One dimension of a shape. The `-1` that `reshape` and `view` would fill in is never sent. -/
def decodeDim : Native → Except SerialError Nat
  | .scalar (.int n) =>
    if 0 ≤ n then .ok n.toNat else .error (.python (.valueError "negative dimensions are not allowed"))
  | obj => .error (.python (.typeError (typeName obj ++ " object cannot be interpreted as an integer")))

def decodeShape : Native → Except SerialError (List Nat)
  | .array elems => elems.mapM decodeDim
  | obj => .error (.python (.typeError ("expected a sequence of integers or a single integer, got " ++ typeName obj)))

def decodeStr : Native → Except SerialError String
  | .scalar (.str value) => .ok value
  | obj => .error (.python (.typeError ("expected a string, got " ++ typeName obj)))

section

variable {D T : Type} [NumpyDType D] [TorchDType T]

/-- `np.frombuffer(buffer, dtype=dtype)`: the size of the array. -/
def frombuffer (buffer : Bytes) (dtype : D) : Except SerialError Nat :=
  if NumpyDType.itemsize dtype = 0 then
    .error (.python (.valueError "cannot determine count if itemsize is 0"))
  else if buffer.length % NumpyDType.itemsize dtype ≠ 0 then
    .error (.python (.valueError "buffer size must be a multiple of element size"))
  else .ok (buffer.length / NumpyDType.itemsize dtype)

/-- `arr.reshape(shape)`, for the array of `size` elements in a buffer. -/
def reshape (buffer : Bytes) (dtype : D) (size : Nat) (shape : List Nat) : Except SerialError (NDArray D) :=
  if h : ShapeFits shape ∧ buffer.length = shape.prod * NumpyDType.itemsize dtype then
    .ok ⟨dtype, shape, buffer, true, h.1, h.2⟩
  else .error (.python (.valueError ("cannot reshape array of size " ++ toString size ++ " into shape " ++
    toString shape)))

/-- `_decode_ndarray`. A copy has the same elements. -/
def decodeNdarray (auxBuffers : List Bytes) (arr : Native) : Except SerialError (NDArray D) := do
  let (dtype, shape, data) ← unpackThree arr
  let buffer ← bufferOf auxBuffers data
  let dtype ← NumpyDType.dtype (← decodeStr dtype)
  let size ← frombuffer buffer dtype
  reshape buffer dtype size (← decodeShape shape)

/-- `torch.empty(shape, dtype=torch_dtype)`, for a shape without elements. -/
def emptyTensor (dtype : T) (shape : List Nat) : Except SerialError (Tensor T) :=
  if h : ShapeFits shape ∧ ([] : Bytes).length = shape.prod * TorchDType.itemsize dtype then
    .ok ⟨dtype, shape, [], h.1, h.2⟩
  else .error (.python (.runtimeError "invalid shape"))

/-- `arr.view(torch_dtype).view(shape)`, for the bytes in a buffer. -/
def viewAs (buffer : Bytes) (dtype : T) (shape : List Nat) : Except SerialError (Tensor T) :=
  if h : ShapeFits shape ∧ buffer.length = shape.prod * TorchDType.itemsize dtype then
    .ok ⟨dtype, shape, buffer, h.1, h.2⟩
  else .error (.python (.runtimeError ("shape '" ++ toString shape ++ "' is invalid for input of size " ++
    toString (buffer.length / TorchDType.itemsize dtype))))

/-- `_decode_tensor`. Clones and pinned copies have the same elements. -/
def decodeTensor (auxBuffers : List Bytes) (arr : Native) : Except SerialError (Tensor T) := do
  let (dtype, shape, data) ← unpackThree arr
  let buffer ← bufferOf auxBuffers data
  let torchDtype ← TorchDType.dtype (← decodeStr dtype)
  let shape ← decodeShape shape
  if buffer = [] then
    if 0 ∈ shape then emptyTensor torchDtype shape
    else .error (.python (.assertionError ""))
  else viewAs buffer torchDtype shape

/-- A bound of a slice; those of the slices here are integers or absent. -/
def decodeBound : Native → Except SerialError (Option Int)
  | .scalar .none => .ok none
  | .scalar (.int v) => .ok (some v)
  | obj => .error (.python (.typeError ("slice indices must be integers or None, got " ++ typeName obj)))

/-- `slice(*obj)`. -/
def decodeSlice : List Native → Except SerialError Slice
  | [stop] => do return ⟨none, ← decodeBound stop, none⟩
  | [start, stop] => do return ⟨← decodeBound start, ← decodeBound stop, none⟩
  | [start, stop, step] => do return ⟨← decodeBound start, ← decodeBound stop, ← decodeBound step⟩
  | [] => .error (.python (.typeError "slice expected at least 1 argument, got 0"))
  | args => .error (.python (.typeError ("slice expected at most 3 arguments, got " ++ toString args.length)))

def isList : Native → Bool
  | .array _ => true
  | _ => false

def isStr : Native → Bool
  | .scalar (.str _) => true
  | _ => false

mutual

/-- `_decode_nested_slices`. -/
def decodeNestedSlices : Native → Except SerialError NestedSlices
  | .array obj =>
    if obj.head?.all isList then do return .list (← decodeNestedSlicesList obj)
    else do return .slice (← decodeSlice obj)
  | _ => .error (.python (.assertionError ""))

def decodeNestedSlicesList : List Native → Except SerialError (List NestedSlices)
  | [] => .ok []
  | x :: obj => do
    let elem ← decodeNestedSlices x
    let elems ← decodeNestedSlicesList obj
    return elem :: elems

end

mutual

/-- `_decode_nested_tensors`. -/
def decodeNestedTensors (auxBuffers : List Bytes) : Native → Except SerialError (NestedTensors T)
  | .scalar (.bool value) => .ok (.bool value)
  | .scalar (.int value) => .ok (.int value)
  | .scalar (.float bits) => .ok (.float bits)
  | .array obj =>
    if obj.head?.any isStr then do return .tensor (← decodeTensor auxBuffers (.array obj))
    else do return .list (← decodeNestedTensorsList auxBuffers obj)
  | obj => .error (.python (.typeError ("Unexpected NestedTensors contents: " ++ typeName obj)))

def decodeNestedTensorsList (auxBuffers : List Bytes) :
    List Native → Except SerialError (List (NestedTensors T))
  | [] => .ok []
  | x :: obj => do
    let elem ← decodeNestedTensors auxBuffers x
    let elems ← decodeNestedTensorsList auxBuffers obj
    return elem :: elems

end

/-! ## Multi-modal items -/

/-- `obj[key]`. -/
def item (obj : List (Scalar × Native)) (key : String) : Except SerialError Native :=
  match lookup obj (.str key) with
  | some value => .ok value
  | none => .error (.python (.keyError key))

/-- Only these keywords are known. -/
def checkKeywords (function : String) (known : List String) (kw : List (Scalar × Native)) :
    Except SerialError Unit :=
  if kw.all fun entry => known.any fun key => entry.1 = .str key then .ok ()
  else .error (.python (.typeError (function ++ "() got an unexpected keyword argument")))

/-- `keep_on_cpu: bool = False`. -/
def keepOnCpu (kw : List (Scalar × Native)) : Except SerialError Bool :=
  match lookup kw (.str "keep_on_cpu") with
  | none => .ok false
  | some (.scalar (.bool value)) => .ok value
  | some obj => .error (.python (.typeError ("expected a bool, got " ++ typeName obj)))

def decodeInt : Native → Except SerialError Int
  | .scalar (.int value) => .ok value
  | obj => .error (.python (.typeError ("expected an int, got " ++ typeName obj)))

/-- `MultiModalFieldConfig.flat("", **kw).field`, after the slices have been decoded. -/
def flat (kw : List (Scalar × Native)) : Except SerialError MultiModalField := do
  let slices ← decodeNestedSlices (← item kw "slices")
  checkKeywords "flat" ["keep_on_cpu", "slices", "dim"] kw
  let dim ← match lookup kw (.str "dim") with
    | none => .ok 0
    | some dim => decodeInt dim
  return .flat (← keepOnCpu kw) slices dim

/-- `MultiModalFieldConfig.shared("", **kw).field`. -/
def shared (kw : List (Scalar × Native)) : Except SerialError MultiModalField := do
  checkKeywords "shared" ["keep_on_cpu", "batch_size"] kw
  match lookup kw (.str "batch_size") with
  | none => .error (.python (.typeError "shared() missing 1 required positional argument: 'batch_size'"))
  | some batchSize => return .shared (← keepOnCpu kw) (← decodeInt batchSize)

/-- `MultiModalFieldConfig.batched("", **kw).field`. -/
def batched (kw : List (Scalar × Native)) : Except SerialError MultiModalField := do
  checkKeywords "batched" ["keep_on_cpu"] kw
  return .batched (← keepOnCpu kw)

/-- `factory_meth("", **factory_kw).field`, for the factory of that name. `flat_from_sizes` takes a
tensor, which the message does not have. -/
def decodeMmField (obj : Native) : Except SerialError MultiModalField := do
  let (factoryMethName, factoryKw) ← unpackTwo obj
  let name ← decodeStr factoryMethName
  match factoryKw with
  | .map kw =>
    if name = "flat" then flat kw
    else if name = "shared" then shared kw
    else if name = "batched" then batched kw
    else .error (.attributeError ("type object 'MultiModalFieldConfig' has no attribute '" ++ name ++ "'"))
  | obj => .error (.python (.typeError ("argument after ** must be a mapping, not " ++ typeName obj)))

/-- `obj["data"]`, which may be absent. -/
def decodeData (auxBuffers : List Bytes) : Native → Except SerialError (Option (NestedTensors T))
  | .scalar .none => .ok none
  | data => do return some (← decodeNestedTensors auxBuffers data)

/-- `_decode_mm_field_elem`. -/
def decodeMmFieldElem (auxBuffers : List Bytes) : Native → Except SerialError (MultiModalFieldElem T)
  | .map obj => do
    let data ← decodeData auxBuffers (← item obj "data")
    let field ← decodeMmField (← item obj "field")
    checkKeywords "MultiModalFieldElem.__init__" ["data", "field"] obj
    return ⟨data, field⟩
  | obj => .error (.python (.typeError (typeName obj ++ " object is not subscriptable")))

/-- A dictionary with strings as keys, its values decoded one by one. -/
def decodeEntries {V : Type} (decode : Native → Except SerialError V) : Native →
    Except SerialError (Dict String V)
  | .map obj => do
    let entries ← obj.mapM fun entry => do return (← decodeStr (.scalar entry.1), ← decode entry.2)
    return Dict.empty.insertAll entries
  | obj => .error (.attributeError (typeName obj ++ " object has no attribute 'items'"))

/-- `_decode_mm_item`. -/
def decodeMmItem (auxBuffers : List Bytes) : Native → Except SerialError (MultiModalKwargsItem T) :=
  decodeEntries (decodeMmFieldElem auxBuffers)

def decodeMmItemList (auxBuffers : List Bytes) : Native → Except SerialError (List (MultiModalKwargsItem T))
  | .array itemlist => itemlist.mapM (decodeMmItem auxBuffers)
  | obj => .error (.python (.typeError (typeName obj ++ " object is not iterable")))

/-- `_decode_mm_items`. -/
def decodeMmItems (auxBuffers : List Bytes) : Native → Except SerialError (MultiModalKwargsItems T) :=
  decodeEntries (decodeMmItemList auxBuffers)

/-! ## Values -/

/-- What a decoder is made for. -/
inductive Ty where
  | any
  | cls (cls : PyClass)
  | list (elem : Ty)
  | dict (value : Ty)

/-- What a message is decoded as. -/
inductive MessageTy where
  | value (ty : Ty)
  | utilityResult

/-- The class of that name in that module. -/
def importClass (modName name : String) : Except SerialError PyClass :=
  match ([.builtin .bool, .builtin .int, .builtin .float, .builtin .str, .builtin .bytes, .ndarray, .tensor,
    .slice, .item, .items] : List PyClass).find? fun cls => typeNames cls = (modName, name) with
  | some cls => .ok cls
  | none => .error (.attributeError ("module '" ++ modName ++ "' has no attribute '" ++ name ++ "'"))

/-- A pair of which the first is a string: the description of a class. -/
def isClassInfo (typeInfo : List Native) : Bool := typeInfo.length = 2 && typeInfo.head?.any isStr

variable [Pickle D T]

/-- `ext_hook`: what an extension becomes. -/
def extHook (allowInsecure : Bool) (code : Nat) (data : Bytes) : Except SerialError (Value D T) :=
  if code = CUSTOM_TYPE_RAW_VIEW then .ok (.memoryview data)
  else if allowInsecure ∧ code = CUSTOM_TYPE_PICKLE then Pickle.loads data
  else if allowInsecure ∧ code = CUSTOM_TYPE_CLOUDPICKLE then Pickle.cloudLoads data
  else .error (.python (.notImplementedError
    ("Extension type code " ++ toString code ++ " is not supported")))

mutual

/-- The value that is read where no class is asked for. -/
def toValue (allowInsecure : Bool) : Native → Except SerialError (Value D T)
  | .scalar value => .ok (.scalar value)
  | .ext code data => extHook allowInsecure code data
  | .array elems => do return .list (← toValues allowInsecure elems)
  | .map entries => do return .dict (← toEntries allowInsecure entries)

def toValues (allowInsecure : Bool) : List Native → Except SerialError (List (Value D T))
  | [] => .ok []
  | elem :: elems => do
    let value ← toValue allowInsecure elem
    let values ← toValues allowInsecure elems
    return value :: values

def toEntries (allowInsecure : Bool) :
    List (Scalar × Native) → Except SerialError (List (Scalar × Value D T))
  | [] => .ok []
  | (key, native) :: entries => do
    let value ← toValue allowInsecure native
    let values ← toEntries allowInsecure entries
    return (key, value) :: values

end

mutual

/-- `ext_hook` on every extension of a message, which msgspec documents that a decoder calls wherever it meets one. -/
def checkExts (allowInsecure : Bool) : Native → Except SerialError Unit
  | .scalar _ => .ok ()
  | .ext code data => do
    let _ ← (extHook allowInsecure code data : Except SerialError (Value D T))
    return ()
  | .array elems => checkExtsList allowInsecure elems
  | .map entries => checkExtsEntries allowInsecure entries

def checkExtsList (allowInsecure : Bool) : List Native → Except SerialError Unit
  | [] => .ok ()
  | elem :: elems => do
    checkExts allowInsecure elem
    checkExtsList allowInsecure elems

def checkExtsEntries (allowInsecure : Bool) : List (Scalar × Native) → Except SerialError Unit
  | [] => .ok ()
  | (_, native) :: entries => do
    checkExts allowInsecure native
    checkExtsEntries allowInsecure entries

end

variable [Msgspec]

/-- A native value as one of a class: `dec_hook`, and msgspec itself for the classes of scalars. -/
def decHook (allowInsecure : Bool) (auxBuffers : List Bytes) (obj : Native) :
    PyClass → Except SerialError (Value D T)
  | .builtin builtin => do toValue allowInsecure (← Msgspec.convert builtin obj)
  | .ndarray => do return .ndarray (← decodeNdarray auxBuffers obj)
  | .tensor => do return .tensor (← decodeTensor auxBuffers obj)
  | .slice =>
    match obj with
    | .array obj => do return .slice (← decodeSlice obj)
    | obj => .error (.python (.typeError ("Value after * must be an iterable, not " ++ typeName obj)))
  | .item => do return .item (← decodeMmItem auxBuffers obj)
  | .items => do return .items (← decodeMmItems auxBuffers obj)

/-- The decoder for a type, with `dec_hook` for the classes that msgspec does not know: it is called, as documented,
on what was decoded without a type. -/
def decodeAs (allowInsecure : Bool) (auxBuffers : List Bytes) :
    Ty → Native → Except SerialError (Value D T)
  | .any, obj => toValue allowInsecure obj
  | .cls cls, obj => decHook allowInsecure auxBuffers obj cls
  | .list elem, obj =>
    match obj with
    | .array elems => do return .list (← elems.mapM (decodeAs allowInsecure auxBuffers elem))
    | obj => .error (.validationError ("Expected `array`, got `" ++ typeName obj ++ "`"))
  | .dict value, obj =>
    match obj with
    | .map entries => do
      let entries ← entries.mapM fun entry => do
        let key ← decodeStr (.scalar entry.1)
        return (Scalar.str key, ← decodeAs allowInsecure auxBuffers value entry.2)
      return .dict entries
    | obj => .error (.validationError ("Expected `object`, got `" ++ typeName obj ++ "`"))

/-- `_convert_result`. -/
def convertResult (allowInsecure : Bool) (auxBuffers : List Bytes) (resultType result : Native) :
    Except SerialError (Value D T) := do
  let (modName, name) ← unpackTwo resultType
  let cls ← importClass (← decodeStr modName) (← decodeStr name)
  decHook allowInsecure auxBuffers result cls

mutual

/-- `_decode_type_info_recursive`. -/
def decodeTypeInfo (allowInsecure : Bool) (auxBuffers : List Bytes) :
    Native → Native → Except SerialError (Value D T)
  | .scalar typeInfo, data =>
    if typeInfo = .none then toValue allowInsecure data
    else convertResult allowInsecure auxBuffers (.scalar typeInfo) data
  | .ext code typeInfo, data => convertResult allowInsecure auxBuffers (.ext code typeInfo) data
  | .map typeInfo, data =>
    match data with
    | .map data => do return .dict (← decodeTypeInfoEntries allowInsecure auxBuffers typeInfo data)
    | _ => .error (.python (.assertionError ""))
  | .array typeInfo, data =>
    if isClassInfo typeInfo then convertResult allowInsecure auxBuffers (.array typeInfo) data
    else
      match data with
      | .array data => do return .list (← decodeTypeInfos allowInsecure auxBuffers typeInfo data)
      | _ => .error (.python (.assertionError ""))

def decodeTypeInfos (allowInsecure : Bool) (auxBuffers : List Bytes) :
    List Native → List Native → Except SerialError (List (Value D T))
  | ti :: typeInfo, d :: data => do
    let value ← decodeTypeInfo allowInsecure auxBuffers ti d
    let values ← decodeTypeInfos allowInsecure auxBuffers typeInfo data
    return value :: values
  | _, _ => .ok []

def decodeTypeInfoEntries (allowInsecure : Bool) (auxBuffers : List Bytes) :
    List (Scalar × Native) → List (Scalar × Native) → Except SerialError (List (Scalar × Value D T))
  | [], _ => .ok []
  | (k, ti) :: typeInfo, data => do
    match lookup data k with
    | none => .error (.python (.keyError ""))
    | some d =>
      let value ← decodeTypeInfo allowInsecure auxBuffers ti d
      let values ← decodeTypeInfoEntries allowInsecure auxBuffers typeInfo data
      return (k, value) :: values

end

/-- `_decode_utility_result`. -/
def decodeUtilityResult (allowInsecure : Bool) (auxBuffers : List Bytes) (obj : Native) :
    Except SerialError (Value D T) := do
  let (resultType, result) ← unpackTwo obj
  match resultType with
  | .scalar .none => toValue allowInsecure result
  | resultType =>
    if allowInsecure then decodeTypeInfo allowInsecure auxBuffers resultType result
    else .error (.python (.typeError
      "VLLM_ALLOW_INSECURE_SERIALIZATION must be set to use custom utility result types"))

def decodeMessage (allowInsecure : Bool) (auxBuffers : List Bytes) :
    MessageTy → Native → Except SerialError (Message D T)
  | .value ty, obj => do return .value (← decodeAs allowInsecure auxBuffers ty obj)
  | .utilityResult, obj => do return .utilityResult (← decodeUtilityResult allowInsecure auxBuffers obj)

/-- `MsgpackDecoder.decode`, of a message with its buffers. -/
def decode (allowInsecure : Bool) (ty : MessageTy) (bufs : List Bytes) :
    Except SerialError (Message D T) := do
  let obj ← Msgspec.decode (← bufferAt bufs 0)
  checkExts (D := D) (T := T) allowInsecure obj
  decodeMessage allowInsecure bufs ty obj

end

end Yuan.Serial
