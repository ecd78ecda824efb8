import Yuan.Serial.AuxBuffers

/-!
# What can be sent

A value can be sent as a type if it is of that type and within the limits of the format: integers of 64
bits, and strings, buffers inside the message, lists and dictionaries of fewer than 2^32 bytes or
entries. Arrays have to be of a data type that is neither objects nor voids, has a size and exports a
buffer.
-/

namespace Yuan.Serial

open Yuan.Msgpack

/-- A length that the format can spell. -/
def LengthFits (length : Nat) : Prop := length < 2 ^ 32

def BoundFits (bound : Option Int) : Prop := ∀ v, bound = some v → (Scalar.int v).Fits

structure Slice.Fits (s : Slice) : Prop where
  start : BoundFits s.start
  stop : BoundFits s.stop
  step : BoundFits s.step

inductive NestedSlices.Fits : NestedSlices → Prop where
  | slice {s : Slice} : s.Fits → Fits (.slice s)
  | list {elems : List NestedSlices} : LengthFits elems.length → (∀ elem ∈ elems, Fits elem) →
      Fits (.list elems)

inductive MultiModalField.Fits : MultiModalField → Prop where
  | flat {keepOnCpu : Bool} {slices : NestedSlices} {dim : Int} : slices.Fits → (Scalar.int dim).Fits →
      Fits (.flat keepOnCpu slices dim)
  | shared {keepOnCpu : Bool} {batchSize : Int} : (Scalar.int batchSize).Fits → Fits (.shared keepOnCpu batchSize)
  | batched {keepOnCpu : Bool} : Fits (.batched keepOnCpu)

section

variable {D T : Type} [NumpyDType D] [TorchDType T]

structure NDArray.Sendable (sizeThreshold : Int) (obj : NDArray D) : Prop where
  plain : ¬ obj.NeedsPickle
  exports : NumpyDType.exportsBuffer obj.dtype = true
  itemsize_pos : 0 < NumpyDType.itemsize obj.dtype
  inline : obj.Inline sizeThreshold → LengthFits obj.nbytes

def Tensor.Sendable (sizeThreshold : Int) (obj : Tensor T) : Prop :=
  obj.Inline sizeThreshold → LengthFits obj.nbytes

inductive NestedTensors.Sendable (sizeThreshold : Int) : NestedTensors T → Prop where
  | tensor {obj : Tensor T} : obj.Sendable sizeThreshold → Sendable sizeThreshold (.tensor obj)
  | bool {value : Bool} : Sendable sizeThreshold (.bool value)
  | int {value : Int} : (Scalar.int value).Fits → Sendable sizeThreshold (.int value)
  | float {bits : UInt64} : Sendable sizeThreshold (.float bits)
  | list {elems : List (NestedTensors T)} : LengthFits elems.length →
      (∀ elem ∈ elems, Sendable sizeThreshold elem) → Sendable sizeThreshold (.list elems)

structure MultiModalFieldElem.Sendable (sizeThreshold : Int) (elem : MultiModalFieldElem T) : Prop where
  data : ∀ nt, elem.data = some nt → nt.Sendable sizeThreshold
  field : elem.field.Fits

/-- A dictionary with strings as keys. -/
structure EntriesSendable {V : Type} (sendable : V → Prop) (d : Dict String V) : Prop where
  length : LengthFits d.entries.length
  keys : ∀ entry ∈ d.entries, (Scalar.str entry.1).Fits
  values : ∀ entry ∈ d.entries, sendable entry.2

def MultiModalKwargsItem.Sendable (sizeThreshold : Int) (item : MultiModalKwargsItem T) : Prop :=
  EntriesSendable (MultiModalFieldElem.Sendable sizeThreshold) item

def MultiModalKwargsItems.Sendable (sizeThreshold : Int) (items : MultiModalKwargsItems T) : Prop :=
  EntriesSendable (fun itemlist => LengthFits itemlist.length ∧
    ∀ item ∈ itemlist, MultiModalKwargsItem.Sendable sizeThreshold item) items

/-- A value of a class. -/
inductive Value.OfClass (sizeThreshold : Int) : Value D T → PyClass → Prop where
  | scalar {value : Scalar} {builtin : Builtin} : value.Fits → builtinOf value = some builtin →
      OfClass sizeThreshold (.scalar value) (.builtin builtin)
  | ndarray {obj : NDArray D} : obj.Sendable sizeThreshold → OfClass sizeThreshold (.ndarray obj) .ndarray
  | tensor {obj : Tensor T} : obj.Sendable sizeThreshold → OfClass sizeThreshold (.tensor obj) .tensor
  | slice {obj : Slice} : obj.Fits → OfClass sizeThreshold (.slice obj) .slice
  | item {item : MultiModalKwargsItem T} : MultiModalKwargsItem.Sendable sizeThreshold item →
      OfClass sizeThreshold (.item item) .item
  | items {items : MultiModalKwargsItems T} : MultiModalKwargsItems.Sendable sizeThreshold items →
      OfClass sizeThreshold (.items items) .items

/-- Lists and dictionaries of scalars: what needs no hook. -/
inductive Value.Plain : Value D T → Prop where
  | scalar {value : Scalar} : value.Fits → Plain (.scalar value)
  | list {elems : List (Value D T)} : LengthFits elems.length → (∀ elem ∈ elems, Plain elem) → Plain (.list elems)
  | dict {entries : List (Scalar × Value D T)} : LengthFits entries.length → Keyed entries →
      (∀ entry ∈ entries, entry.1.Fits) → (∀ entry ∈ entries, Plain entry.2) → Plain (.dict entries)

/-- A value that can be sent to a decoder for a type. -/
inductive Value.Sendable (sizeThreshold : Int) : Value D T → Ty → Prop where
  | any {value : Value D T} : value.Plain → Sendable sizeThreshold value .any
  | cls {value : Value D T} {cls : PyClass} : value.OfClass sizeThreshold cls →
      Sendable sizeThreshold value (.cls cls)
  | list {elems : List (Value D T)} {ty : Ty} : LengthFits elems.length →
      (∀ elem ∈ elems, Sendable sizeThreshold elem ty) → Sendable sizeThreshold (.list elems) (.list ty)
  | dict {entries : List (Scalar × Value D T)} {ty : Ty} : LengthFits entries.length → Keyed entries →
      (∀ entry ∈ entries, entry.1.Fits ∧ isStr (.scalar entry.1) = true) →
      (∀ entry ∈ entries, Sendable sizeThreshold entry.2 ty) → Sendable sizeThreshold (.dict entries) (.dict ty)

/-- Nested lists and dictionaries of values of all classes, which a type description goes with. -/
inductive Value.Described (sizeThreshold : Int) : Value D T → Prop where
  | none : Described sizeThreshold (.scalar .none)
  | cls {value : Value D T} {cls : PyClass} : value.OfClass sizeThreshold cls → Described sizeThreshold value
  | list {elems : List (Value D T)} : LengthFits elems.length →
      (∀ elem ∈ elems, Described sizeThreshold elem) → Described sizeThreshold (.list elems)
  | dict {entries : List (Scalar × Value D T)} : LengthFits entries.length → Keyed entries →
      (∀ entry ∈ entries, entry.1.Fits) → (∀ entry ∈ entries, Described sizeThreshold entry.2) →
      Described sizeThreshold (.dict entries)

/-! ## Counting arrays -/

mutual

def NestedTensors.arrays : NestedTensors T → Nat
  | .tensor _ => 1
  | .list elems => listArrays elems
  | _ => 0

def NestedTensors.listArrays : List (NestedTensors T) → Nat
  | [] => 0
  | elem :: elems => elem.arrays + listArrays elems

end

def MultiModalFieldElem.arrays (elem : MultiModalFieldElem T) : Nat :=
  elem.data.elim 0 NestedTensors.arrays

def MultiModalKwargsItem.arrays (item : MultiModalKwargsItem T) : Nat :=
  (item.entries.map fun entry => entry.2.arrays).sum

def MultiModalKwargsItems.arrays (items : MultiModalKwargsItems T) : Nat :=
  (items.entries.map fun entry => (entry.2.map MultiModalKwargsItem.arrays).sum).sum

mutual

/-- The number of arrays and tensors in a value. -/
def Value.arrays : Value D T → Nat
  | .ndarray _ => 1
  | .tensor _ => 1
  | .item obj => MultiModalKwargsItem.arrays obj
  | .items obj => MultiModalKwargsItems.arrays obj
  | .list elems => listArrays elems
  | .dict entries => entriesArrays entries
  | _ => 0

def Value.listArrays : List (Value D T) → Nat
  | [] => 0
  | elem :: elems => elem.arrays + listArrays elems

def Value.entriesArrays : List (Scalar × Value D T) → Nat
  | [] => 0
  | (_, value) :: entries => value.arrays + entriesArrays entries

end

theorem NestedTensors.listArrays_eq (elems : List (NestedTensors T)) : listArrays elems = (elems.map arrays).sum := by
  induction elems with
  | nil => rfl
  | cons elem elems ih => rw [listArrays, ih, List.map_cons, List.sum_cons]

theorem Value.listArrays_eq (elems : List (Value D T)) : listArrays elems = (elems.map arrays).sum := by
  induction elems with
  | nil => rfl
  | cons elem elems ih => rw [listArrays, ih, List.map_cons, List.sum_cons]

theorem Value.entriesArrays_eq (entries : List (Scalar × Value D T)) :
    entriesArrays entries = (entries.map fun entry => entry.2.arrays).sum := by
  induction entries with
  | nil => rfl
  | cons entry entries ih => rw [entriesArrays, ih, List.map_cons, List.sum_cons]

def Message.arrays : Message D T → Nat
  | .value v => v.arrays
  | .utilityResult result => result.arrays

/-- A message that can be sent to a decoder. The result of a utility call is described if pickle is
allowed, and has to be plain otherwise. -/
def Message.Sendable (allowInsecure : Bool) (sizeThreshold : Int) : Message D T → MessageTy → Prop
  | .value v, .value ty => v.Sendable sizeThreshold ty
  | .utilityResult result, .utilityResult =>
    if allowInsecure then result.Described sizeThreshold else result.Plain
  | _, _ => False

end

end Yuan.Serial
