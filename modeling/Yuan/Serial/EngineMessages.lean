import Yuan.Serial.RoundTrip

/-!
# Engine messages

A message that can be sent is decoded as the value that was encoded, whatever the size threshold. An
array of voids cannot be sent without pickle.
-/

namespace Yuan.Serial

open Yuan.Msgpack

section

variable {D T : Type} [NumpyDType D] [TorchDType T] [Pickle D T] {allowInsecure : Bool} {sizeThreshold : Int}

theorem checkExtsList_eq_ok {natives : List Native}
    (h : ∀ native ∈ natives, checkExts (D := D) (T := T) allowInsecure native = .ok ()) :
    checkExtsList (D := D) (T := T) allowInsecure natives = .ok () := by
  induction natives with
  | nil => rfl
  | cons native natives ih =>
    rw [checkExtsList, h native List.mem_cons_self]
    exact ih fun native hnative => h native (List.mem_cons_of_mem _ hnative)

theorem checkExtsEntries_eq_ok {entries : List (Scalar × Native)}
    (h : ∀ entry ∈ entries, checkExts (D := D) (T := T) allowInsecure entry.2 = .ok ()) :
    checkExtsEntries (D := D) (T := T) allowInsecure entries = .ok () := by
  induction entries with
  | nil => rfl
  | cons entry entries ih =>
    rw [checkExtsEntries, h entry List.mem_cons_self]
    exact ih fun entry hentry => h entry (List.mem_cons_of_mem _ hentry)

/-- Raw views are accepted with and without pickle. -/
theorem checkExts_of_fits {native : Native} (h : Fits RawView native) :
    checkExts (D := D) (T := T) allowInsecure native = .ok () := by
  induction h with
  | scalar _ => rfl
  | ext hcode _ =>
    have hhook : ∀ {code : Nat} (data : Bytes), RawView code →
        (extHook allowInsecure code data : Except SerialError (Value D T)) = .ok (.memoryview data) :=
      fun _ hcode => if_pos hcode
    rw [checkExts, hhook _ hcode]
    rfl
  | array _ _ ih => exact checkExtsList_eq_ok ih
  | map _ _ _ _ ih => exact checkExtsEntries_eq_ok ih

theorem fits_two {a b : Native} (ha : Fits RawView a) (hb : Fits RawView b) : Fits RawView (.array [a, b]) := by
  refine .array (show 2 < 2 ^ 32 by decide) ?_
  simp only [List.mem_cons, List.not_mem_nil, or_false]
  rintro elem (rfl | rfl)
  · exact ha
  · exact hb

variable [Msgspec]

/-- With a type description or `None`, a result is read by its description. -/
theorem decodeUtilityResult_described (full : List Bytes) (typeInfo native : Native) :
    (decodeUtilityResult true full (.array [typeInfo, native]) : Except SerialError (Value D T)) =
      decodeTypeInfo true full typeInfo native := by
  unfold decodeUtilityResult
  rw [show unpackTwo (.array [typeInfo, native]) = .ok (typeInfo, native) from rfl, ok_bind]
  dsimp only
  split
  case h_1 => rfl
  case h_2 => rfl

/-- What msgspec is given for a message, and what the hooks read from it. -/
theorem writes_message {m : Message D T} {ty : MessageTy} (h : m.Sendable allowInsecure sizeThreshold ty) :
    Writes (encodeMessage allowInsecure sizeThreshold m) m.arrays
      (Reads (fun full => decodeMessage allowInsecure full ty) m.toContiguous) := by
  cases m with
  | value v =>
    cases ty with
    | value ty =>
      apply (writes_sendable h).mono le_rfl
      intro full native hread
      exact hread.wrap fun hdecode => bind_eq_ok.mpr ⟨_, hdecode, rfl⟩
    | utilityResult => exact h.elim
  | utilityResult result =>
    cases ty with
    | value ty => exact h.elim
    | utilityResult =>
      cases allowInsecure with
      | true =>
        apply (writes_described h).map
        intro full native hread hlength
        obtain ⟨hfits, hdecode⟩ := hread hlength
        refine ⟨fits_two (fits_encodeTypeInfo h) hfits, bind_eq_ok.mpr ⟨_, ?_, rfl⟩⟩
        exact (decodeUtilityResult_described full _ native).trans hdecode
      | false =>
        apply (writes_plain h).map
        intro full native hread hlength
        obtain ⟨hfits, hdecode⟩ := hread hlength
        refine ⟨fits_two (.scalar trivial) hfits, bind_eq_ok.mpr ⟨_, hdecode, ?_⟩⟩
        exact congrArg (fun r => Except.ok (Message.utilityResult r)) (toContiguous_of_plain h).symm

end

/-! ## An item, and an array of voids -/

/-- msgspec as it packs and unpacks within the limits of the format. -/
instance published : Msgspec where
  encode native := .ok (pack native)
  decode bytes :=
    match unpack bytes with
    | some native => .ok native
    | none => .error (.validationError "MessagePack data is malformed")
  convert builtin native :=
    match native with
    | .scalar scalar =>
      if builtinOf scalar = some builtin then .ok (.scalar scalar)
      else .error (.validationError "Expected another type")
    | _ => .error (.validationError "Expected another type")
  decode_encode native h := ⟨pack native, rfl, by rw [unpack_pack h]⟩
  convert_self builtin scalar h := if_pos h

/-- Single-precision floats, and voids of four bytes. -/
inductive ArrayDType where
  | float32
  | void4

instance : NumpyDType ArrayDType where
  str
    | .float32 => "<f4"
    | .void4 => "|V4"
  kind
    | .float32 => 'f'
    | .void4 => 'V'
  itemsize _ := 4
  exportsBuffer _ := true
  dtype name :=
    if name = "<f4" then .ok .float32
    else if name = "|V4" then .ok .void4
    else .error (.python (.typeError ("data type '" ++ name ++ "' not understood")))
  length_str d := by cases d <;> exact Nat.lt_of_lt_of_le (by decide : _ < 32) (by decide)
  dtype_str d _ _ _ := by cases d <;> rfl

inductive TensorDType where
  | float32
  | bfloat16

instance : TorchDType TensorDType where
  name
    | .float32 => "float32"
    | .bfloat16 => "bfloat16"
  itemsize
    | .float32 => 4
    | .bfloat16 => 2
  dtype name :=
    if name = "float32" then .ok .float32
    else if name = "bfloat16" then .ok .bfloat16
    else .error (.attributeError ("module 'torch' has no attribute '" ++ name ++ "'"))
  length_name t := by cases t <;> exact Nat.lt_of_lt_of_le (by decide : _ < 32) (by decide)
  itemsize_pos t := by cases t <;> decide
  dtype_name t := by cases t <;> rfl

/-- No object is pickled. -/
instance : Pickle ArrayDType TensorDType where
  dumps _ := []
  loads _ := .error (.python (.runtimeError "pickle data was truncated"))
  cloudLoads _ := .error (.python (.runtimeError "pickle data was truncated"))

/-- Two inline tensors, one of them without dimensions, one without elements and one that is too large. -/
def sampleTensors : List (Tensor TensorDType) := [
  ⟨.bfloat16, [2], [1, 2, 3, 4], by decide, rfl⟩,
  ⟨.float32, [], [5, 6, 7, 8], by decide, rfl⟩,
  ⟨.float32, [0, 3], [], by decide, rfl⟩,
  ⟨.float32, [2], [1, 2, 3, 4, 5, 6, 7, 8], by decide, rfl⟩]

def sampleElem : MultiModalFieldElem TensorDType where
  data := some (.list (sampleTensors.map .tensor))
  field := .flat false (.list [.slice ⟨some 0, some 3, none⟩, .list [.slice ⟨none, none, none⟩]]) 0

def sampleItem : MultiModalKwargsItem TensorDType :=
  ⟨[("pixel_values", sampleElem), ("num_crops", ⟨some (.int 2), .shared true 2⟩)], by decide⟩

theorem fits_sampleField : sampleElem.field.Fits := by
  have hnone : BoundFits none := fun v hv => by cases hv
  have hsome {v : Int} (hv : (Scalar.int v).Fits) : BoundFits (some v) := fun w hw => Option.some.inj hw ▸ hv
  have hfirst : Slice.Fits ⟨some 0, some 3, none⟩ := ⟨hsome (by decide), hsome (by decide), hnone⟩
  have hall : Slice.Fits ⟨none, none, none⟩ := ⟨hnone, hnone, hnone⟩
  refine .flat (.list (show 2 < 2 ^ 32 by decide) ?_) (by decide)
  simp only [List.mem_cons, List.not_mem_nil, or_false]
  rintro elem (rfl | rfl)
  · exact .slice hfirst
  · refine .list (show 1 < 2 ^ 32 by decide) ?_
    intro elem helem
    rw [List.mem_singleton.mp helem]
    exact .slice hall

theorem sendable_sampleTensors {nt : NestedTensors TensorDType} (h : nt ∈ sampleTensors.map .tensor)
    (sizeThreshold : Int) : nt.Sendable sizeThreshold := by
  obtain ⟨obj, hobj, rfl⟩ := List.mem_map.mp h
  have hall : ∀ obj ∈ sampleTensors, obj.data.length ≤ 8 := by decide
  exact .tensor fun _ => Nat.lt_of_le_of_lt (hall obj hobj) (by decide)

section

variable {D T : Type} [NumpyDType D] [TorchDType T] [Pickle D T] [Msgspec]

/-- Messages round-trip, whatever goes into the message itself and whatever beside it. -/
theorem engine_messages_round_trip (allowInsecure : Bool) (sizeThreshold : Int) {m : Message D T} {ty : MessageTy}
    (h : m.Sendable allowInsecure sizeThreshold ty) (harrays : m.arrays < 2 ^ 63) :
    ∃ bufs, encode allowInsecure sizeThreshold m = .ok bufs ∧ decode allowInsecure ty bufs = .ok m.toContiguous := by
  obtain ⟨native, aux, hrun, hstart, hlength, hread⟩ := writes_message h [[]] (List.cons_ne_nil _ _)
  rw [List.length_singleton] at hlength
  have hself : Resolves aux aux := ⟨le_rfl, fun _ _ _ => rfl⟩
  obtain ⟨hfits, -⟩ := hread aux hself (by omega)
  have huser : Fits UserCode native := hfits.mono fun code hcode => by
    rw [show code = 3 from hcode]
    exact (by decide : 3 < 128)
  obtain ⟨packed, hpack, hunpack⟩ := Msgspec.decode_encode native huser
  refine ⟨aux.set 0 packed, bind_eq_ok.mpr ⟨_, hrun, bind_eq_ok.mpr ⟨_, hpack, rfl⟩⟩, ?_⟩
  have hget : (aux.set 0 packed)[0]? = some packed := by
    rw [List.getElem?_set_self]
    exact List.length_pos_iff.mpr fun hnil => List.cons_ne_nil _ _ (List.prefix_nil.mp (hnil ▸ hstart))
  obtain ⟨-, hdecode⟩ := hread _ (resolves_set packed aux) (by rw [List.length_set]; omega)
  exact bind_eq_ok.mpr ⟨_, bufferAt_of_get hget, bind_eq_ok.mpr ⟨_, hunpack,
    bind_eq_ok.mpr ⟨_, checkExts_of_fits hfits, hdecode⟩⟩⟩

end

/-- The item, with a threshold of 8 bytes. -/
theorem engine_messages_round_trip_item :
    ∃ bufs, encode false 8 (.value (.item sampleItem) : Message ArrayDType TensorDType) = .ok bufs ∧
      decode false (.value (.cls .item)) bufs = .ok (.value (.item sampleItem) : Message ArrayDType TensorDType) := by
  refine engine_messages_round_trip false 8 ?_ ?_
  · refine .cls (.item ⟨show 2 < 2 ^ 32 by decide, ?_, ?_⟩)
    · simp only [sampleItem, List.mem_cons, List.not_mem_nil, or_false]
      rintro entry (rfl | rfl)
      · exact fits_str_of_length (by decide)
      · exact fits_str_of_length (by decide)
    · simp only [sampleItem, List.mem_cons, List.not_mem_nil, or_false]
      rintro entry (rfl | rfl)
      · refine ⟨fun nt hnt => ?_, fits_sampleField⟩
        cases hnt
        exact .list (show 4 < 2 ^ 32 by decide) fun nt hnt => sendable_sampleTensors hnt 8
      · refine ⟨fun nt hnt => ?_, .shared (by decide)⟩
        cases hnt
        exact .int (by decide)
  · decide

/-- An array of one void of four bytes. -/
def voidArray : NDArray ArrayDType := ⟨.void4, [1], [1, 2, 3, 4], true, by decide, rfl⟩

/-- Without pickle, an array of voids is refused. -/
theorem void_array_not_serializable :
    encode false 256 (.value (.ndarray voidArray) : Message ArrayDType TensorDType) =
      .error (notSerializable "<class 'numpy.ndarray'>") := rfl

end Yuan.Serial
