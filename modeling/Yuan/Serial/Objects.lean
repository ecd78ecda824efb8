import Yuan.Lib.Dict
import Yuan.Lib.Msgpack

/-!
# What engine messages are made of

Arrays and tensors, given by their elements in C order, slices, multi-modal items and lists and
dictionaries of such values. What msgspec, numpy, torch and pickle do is a parameter with its documented
behaviour.
-/

namespace Yuan.Serial

open Yuan.Msgpack

inductive SerialError where
  | python (error : PyError)
  | attributeError (msg : String)
  | validationError (msg : String)

/-- The limits of messages, with the extensions of certain codes. -/
abbrev Fits (codes : Nat → Prop) (native : Native) : Prop := native.Fits codes

/-- The built-in classes of scalars. -/
inductive Builtin where
  | bool
  | int
  | float
  | str
  | bytes
  deriving DecidableEq

/-- The classes that a value of a message is decoded to. -/
inductive PyClass where
  | builtin (builtin : Builtin)
  | ndarray
  | tensor
  | slice
  | item
  | items
  deriving DecidableEq

/-- `type(value)`. -/
def builtinOf : Scalar → Option Builtin
  | .none => none
  | .bool _ => some .bool
  | .int _ => some .int
  | .float _ => some .float
  | .str _ => some .str
  | .bytes _ => some .bytes

/-- `msgspec`: what is packed within the limits of the format is unpacked again, and a scalar is
converted to its own class without a change. -/
class Msgspec where
  encode : Native → Except SerialError Bytes
  decode : Bytes → Except SerialError Native
  convert : Builtin → Native → Except SerialError Native
  decode_encode : ∀ native, Fits UserCode native →
    ∃ bytes, encode native = .ok bytes ∧ decode bytes = .ok native
  convert_self : ∀ builtin scalar, builtinOf scalar = some builtin →
    convert builtin (.scalar scalar) = .ok (.scalar scalar)

/-- The data types of numpy. Objects and voids aside, a type whose arrays export a buffer has a type
string that names it. -/
class NumpyDType (D : Type) where
  str : D → String
  kind : D → Char
  itemsize : D → Nat
  exportsBuffer : D → Bool
  dtype : String → Except SerialError D
  length_str : ∀ d, (utf8 (str d)).length < 2 ^ 32
  dtype_str : ∀ d, kind d ≠ 'O' → kind d ≠ 'V' → exportsBuffer d = true → dtype (str d) = .ok d

/-- The data types of torch; `name` is `str(dtype)` without its prefix, and `dtype` the attribute of
that name, asserted to be a data type. -/
class TorchDType (T : Type) where
  name : T → String
  itemsize : T → Nat
  dtype : String → Except SerialError T
  length_name : ∀ t, (utf8 (name t)).length < 2 ^ 32
  itemsize_pos : ∀ t, 0 < itemsize t
  dtype_name : ∀ t, dtype (name t) = .ok t

/-- What numpy and torch hold dimensions in. -/
def ShapeFits (shape : List Nat) : Prop := shape.length < 2 ^ 32 ∧ ∀ n ∈ shape, n < 2 ^ 63

instance (shape : List Nat) : Decidable (ShapeFits shape) := by
  unfold ShapeFits
  infer_instance

/-- `data` are the elements in C order, whatever the layout in memory; `contiguous` is
`flags.c_contiguous`. -/
structure NDArray (D : Type) [NumpyDType D] where
  dtype : D
  shape : List Nat
  data : Bytes
  contiguous : Bool
  shape_fits : ShapeFits shape
  length_data : data.length = shape.prod * NumpyDType.itemsize dtype

/-- `data` are the elements in C order: what `tensor_data` returns, whatever the layout in memory. -/
structure Tensor (T : Type) [TorchDType T] where
  dtype : T
  shape : List Nat
  data : Bytes
  shape_fits : ShapeFits shape
  length_data : data.length = shape.prod * TorchDType.itemsize dtype

/-- A slice with bounds that are integers or absent. -/
structure Slice where
  start : Option Int
  stop : Option Int
  step : Option Int
  deriving DecidableEq

/-- Tensors in lists, with numbers in their place. -/
inductive NestedTensors (T : Type) [TorchDType T] where
  | tensor (tensor : Tensor T)
  | bool (value : Bool)
  | int (value : Int)
  | float (bits : UInt64)
  | list (elems : List (NestedTensors T))

inductive NestedSlices where
  | slice (slice : Slice)
  | list (elems : List NestedSlices)

/-- `BaseMultiModalField`, with its subclasses. -/
inductive MultiModalField where
  | flat (keepOnCpu : Bool) (slices : NestedSlices) (dim : Int)
  | shared (keepOnCpu : Bool) (batchSize : Int)
  | batched (keepOnCpu : Bool)

structure MultiModalFieldElem (T : Type) [TorchDType T] where
  data : Option (NestedTensors T)
  field : MultiModalField

abbrev MultiModalKwargsItem (T : Type) [TorchDType T] : Type := Dict String (MultiModalFieldElem T)

abbrev MultiModalKwargsItems (T : Type) [TorchDType T] : Type := Dict String (List (MultiModalKwargsItem T))

/-- A value of a message. Memoryviews only come out of the decoder. -/
inductive Value (D T : Type) [NumpyDType D] [TorchDType T] where
  | scalar (value : Scalar)
  | memoryview (data : Bytes)
  | ndarray (array : NDArray D)
  | tensor (tensor : Tensor T)
  | slice (slice : Slice)
  | item (item : MultiModalKwargsItem T)
  | items (items : MultiModalKwargsItems T)
  | list (elems : List (Value D T))
  | dict (entries : List (Scalar × Value D T))

/-- `pickle` for the arrays that need it, and what `pickle` and `cloudpickle` load. -/
class Pickle (D T : Type) [NumpyDType D] [TorchDType T] where
  dumps : NDArray D → Bytes
  loads : Bytes → Except SerialError (Value D T)
  cloudLoads : Bytes → Except SerialError (Value D T)

/-- What is encoded: a value, or the result of a utility call. -/
inductive Message (D T : Type) [NumpyDType D] [TorchDType T] where
  | value (value : Value D T)
  | utilityResult (result : Value D T)

section

variable {D T : Type} [NumpyDType D] [TorchDType T]

/-- The array in C order. -/
def NDArray.toContiguous (array : NDArray D) : NDArray D := { array with contiguous := true }

mutual

/-- The same value, with its arrays laid out in C order. -/
def Value.toContiguous : Value D T → Value D T
  | .ndarray array => .ndarray array.toContiguous
  | .list elems => .list (listToContiguous elems)
  | .dict entries => .dict (entriesToContiguous entries)
  | value => value

def Value.listToContiguous : List (Value D T) → List (Value D T)
  | [] => []
  | elem :: elems => elem.toContiguous :: listToContiguous elems

def Value.entriesToContiguous : List (Scalar × Value D T) → List (Scalar × Value D T)
  | [] => []
  | (key, value) :: entries => (key, value.toContiguous) :: entriesToContiguous entries

end

theorem Value.listToContiguous_eq (elems : List (Value D T)) : listToContiguous elems = elems.map toContiguous := by
  induction elems with
  | nil => rfl
  | cons elem elems ih => rw [listToContiguous, ih, List.map_cons]

theorem Value.entriesToContiguous_eq (entries : List (Scalar × Value D T)) :
    entriesToContiguous entries = entries.map fun entry => (entry.1, entry.2.toContiguous) := by
  induction entries with
  | nil => rfl
  | cons entry entries ih => rw [entriesToContiguous, ih, List.map_cons]

def Message.toContiguous : Message D T → Message D T
  | .value v => .value v.toContiguous
  | .utilityResult result => .utilityResult result.toContiguous

end

end Yuan.Serial
